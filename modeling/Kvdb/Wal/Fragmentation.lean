import Kvdb.Wal.Recovery

/-!
# The fragments of one record

`WALWriter::write_payload` cuts a payload into fragments (`writePayload_fragments`): from
any offset on,

    padding | header | piece | padding | header | piece | …

each fragment has at least one byte of the payload and lies in one block, and padding stands
only where a header and one byte behind it have no room (`Laid`).
-/

namespace Kvdb

open Faulty Bytes

/-- The types of the fragments of one record: FULL, or FIRST MIDDLE* LAST. -/
def Chained (fs : List Fragment) : Prop :=
  fs.map (·.header.fragmentType) = [.full] ∨
    ∃ n, fs.map (·.header.fragmentType) = .first :: (List.replicate n .middle ++ [.last])

variable [Zlib]

/-- The fragments as they stand in a file from `off` on.  `Fragment::write` adds nothing in front of a fragment at its
place. -/
inductive Laid : Nat → List Fragment → List UInt8 → Prop where
  | nil (off : Nat) : Laid off [] []
  | cons {off : Nat} {pad d : List UInt8} {f : Fragment} {fs : List Fragment}
      (hpad : pad ≠ [] → WAL_FILE_BLOCK_SIZE - off % WAL_FILE_BLOCK_SIZE < 23 ∧
        pad.length = WAL_FILE_BLOCK_SIZE - off % WAL_FILE_BLOCK_SIZE)
      (hne : f.payload ≠ [])
      (hroom : (off + pad.length) % WAL_FILE_BLOCK_SIZE + f.diskSize ≤ WAL_FILE_BLOCK_SIZE)
      (hwrite : ∀ w : Writer Status, w.Synced → w.offset = off + pad.length → f.write w = append f.bytes w)
      (hrest : Laid (off + pad.length + f.diskSize) fs d) : Laid off (f :: fs) (pad ++ (f.bytes ++ d))

variable {r : InternalRecord}

omit [Zlib] in
/-- Padding that is written fills a block with too little room. -/
theorem padding_small (off : Nat) (h : padding off (FragmentHeader.diskSize + 1) WAL_FILE_BLOCK_SIZE ≠ []) :
    WAL_FILE_BLOCK_SIZE - off % WAL_FILE_BLOCK_SIZE < 23 ∧
      (padding off (FragmentHeader.diskSize + 1) WAL_FILE_BLOCK_SIZE).length =
        WAL_FILE_BLOCK_SIZE - off % WAL_FILE_BLOCK_SIZE := by
  have hlen := length_padding off (FragmentHeader.diskSize + 1) WAL_FILE_BLOCK_SIZE
  rw [padSize_header] at hlen
  have hblock : WAL_FILE_BLOCK_SIZE = 4096 := rfl
  by_cases hfits : 23 ≤ 4096 - off % 4096
  · rw [if_pos hfits] at hlen
    exact absurd (List.eq_nil_of_length_eq_zero hlen) h
  · rw [if_neg hfits] at hlen
    rw [hlen, hblock]
    omega

/-- Each round of the loop lays one fragment. -/
theorem fragmentsOf_laid (ht : r.type.isValid = true) (fuel : Nat) (off : Nat) (first : Bool) (rest : List UInt8) :
    Laid off (fragmentsOf r fuel off first rest) (encodeFragments off (fragmentsOf r fuel off first rest)) := by
  induction fuel generalizing off first rest with
  | zero => exact .nil off
  | succ fuel ih =>
    by_cases hr : rest = []
    · simp only [fragmentsOf, hr, if_true, encodeFragments]
      exact .nil off
    · have hpos : 0 < rest.length := List.length_pos_iff.mpr hr
      obtain ⟨hsealed, hsize⟩ := piece_spec ht off first rest
      have hroom := pieceSize_room off rest.length
      have hpiece := pieceSize_pos off hpos
      have hnext := ih (fragStart off + FragmentHeader.diskSize + pieceSize (fragStart off) rest.length) false
        (rest.drop (pieceSize (fragStart off) rest.length))
      simp only [fragmentsOf, hr, if_false, encodeFragments]
      generalize hf : sealFragment (mkFragment r first (pieceSize (fragStart off) rest.length == rest.length)
        (rest.take (pieceSize (fragStart off) rest.length))) = f at hsealed hsize ⊢
      have hstart : off + (padding off (FragmentHeader.diskSize + 1) WAL_FILE_BLOCK_SIZE).length = fragStart off := by
        rw [length_padding, fragStart]
      have hblock : WAL_FILE_BLOCK_SIZE = 4096 := rfl
      refine .cons (padding_small off) ?_ ?_ ?_ ?_
      · intro hnil
        rw [Fragment.diskSize, hnil, List.length_nil] at hsize
        omega
      · rw [hstart, hsize]
        omega
      · intro w hw ho
        refine fragment_write_fitting hsealed (by omega) w hw (.inr ?_)
        rw [Fragment.length_bytes, hsize, ho, hstart]
        exact hroom
      · rw [hstart, hsize, ← Nat.add_assoc]
        exact hnext

omit [Zlib] in
theorem fragmentsOf_nil [Zlib] (fuel off : Nat) (first : Bool) : fragmentsOf r fuel off first [] = [] := by
  cases fuel with
  | zero => rfl
  | succ fuel => rw [fragmentsOf, if_pos rfl]

/-- Put together again, the pieces are the payload: the loop does not stop before its end. -/
theorem payloads_fragmentsOf (fuel : Nat) (off : Nat) (first : Bool) (rest : List UInt8)
    (hfuel : rest.length ≤ fuel) :
    (fragmentsOf r fuel off first rest).flatMap Fragment.payload = rest := by
  induction fuel generalizing off first rest with
  | zero =>
    have hnil : rest = [] := List.eq_nil_of_length_eq_zero (by omega)
    rw [hnil]
    rfl
  | succ fuel ih =>
    by_cases hr : rest = []
    · rw [hr, fragmentsOf_nil]
      rfl
    · have hpos : 0 < rest.length := List.length_pos_iff.mpr hr
      have hpiece := pieceSize_pos off hpos
      rw [fragmentsOf, if_neg hr, List.flatMap_cons, ih _ _ _ (by rw [List.length_drop]; omega)]
      exact List.take_append_drop _ _

/-- Behind the first fragment come MIDDLE fragments up to the LAST one. -/
theorem types_fragmentsOf_more (fuel : Nat) (off : Nat) (rest : List UInt8) (hr : rest ≠ [])
    (hfuel : rest.length ≤ fuel) :
    ∃ n, (fragmentsOf r fuel off false rest).map (·.header.fragmentType) = List.replicate n .middle ++ [.last] := by
  induction fuel generalizing off rest with
  | zero => exact absurd (List.eq_nil_of_length_eq_zero (by omega)) hr
  | succ fuel ih =>
    have hpos : 0 < rest.length := List.length_pos_iff.mpr hr
    have hpiece := pieceSize_pos off hpos
    have hle := pieceSize_le (fragStart off) rest.length
    rw [fragmentsOf, if_neg hr]
    dsimp only
    by_cases hlast : pieceSize (fragStart off) rest.length = rest.length
    · have hdrop : rest.drop (pieceSize (fragStart off) rest.length) = [] := List.drop_eq_nil_of_le (by omega)
      refine ⟨0, ?_⟩
      rw [hdrop, fragmentsOf_nil, beq_iff_eq.mpr hlast]
      rfl
    · have hmore : rest.drop (pieceSize (fragStart off) rest.length) ≠ [] := by
        intro hnil
        have hlen := congrArg List.length hnil
        rw [List.length_drop, List.length_nil] at hlen
        omega
      obtain ⟨n, hn⟩ := ih (fragStart off + FragmentHeader.diskSize + pieceSize (fragStart off) rest.length)
        (rest.drop (pieceSize (fragStart off) rest.length)) hmore (by rw [List.length_drop]; omega)
      refine ⟨n + 1, ?_⟩
      rw [List.map_cons, hn, List.replicate_succ, beq_eq_false_iff_ne.mpr hlast]
      rfl

theorem chained_fragmentsOf (fuel : Nat) (off : Nat) (rest : List UInt8) (hr : rest ≠ [])
    (hfuel : rest.length ≤ fuel) :
    Chained (fragmentsOf r fuel off true rest) := by
  have hpos : 0 < rest.length := List.length_pos_iff.mpr hr
  obtain ⟨fuel, rfl⟩ : ∃ k, fuel = k + 1 := ⟨fuel - 1, by omega⟩
  have hpiece := pieceSize_pos off hpos
  have hle := pieceSize_le (fragStart off) rest.length
  rw [fragmentsOf, if_neg hr]
  dsimp only
  by_cases hlast : pieceSize (fragStart off) rest.length = rest.length
  · have hdrop : rest.drop (pieceSize (fragStart off) rest.length) = [] := List.drop_eq_nil_of_le (by omega)
    left
    rw [hdrop, fragmentsOf_nil, beq_iff_eq.mpr hlast]
    rfl
  · have hmore : rest.drop (pieceSize (fragStart off) rest.length) ≠ [] := by
      intro hnil
      have hlen := congrArg List.length hnil
      rw [List.length_drop, List.length_nil] at hlen
      omega
    obtain ⟨n, hn⟩ := @types_fragmentsOf_more _ r fuel
      (fragStart off + FragmentHeader.diskSize + pieceSize (fragStart off) rest.length)
      (rest.drop (pieceSize (fragStart off) rest.length)) hmore (by rw [List.length_drop]; omega)
    right
    refine ⟨n, ?_⟩
    rw [List.map_cons, hn, beq_eq_false_iff_ne.mpr hlast]
    rfl

theorem header_fragmentsOf (fuel off : Nat) (first : Bool) (rest : List UInt8) :
    ∀ f ∈ fragmentsOf r fuel off first rest, f.header.type = r.type ∧ f.header.seqNum = r.seqNum := by
  induction fuel generalizing off first rest with
  | zero => simp [fragmentsOf]
  | succ fuel ih =>
    by_cases hr : rest = []
    · simp [fragmentsOf, hr]
    · rw [fragmentsOf, if_neg hr]
      intro f hf
      rcases List.mem_cons.mp hf with rfl | hf
      · exact ⟨rfl, rfl⟩
      · exact ih _ _ _ f hf

/-- A payload of a record with an invalid type is refused in the first round, when its checksum is computed. -/
theorem writePayload_invalid (ht : r.type.isValid = false) {payload : List UInt8} (hne : payload ≠ [])
    {w : Writer Status} (hw : w.Synced) (hfree : w.room = none) :
    ∃ w', WALWriter.writePayload payload r w =
      (.err ⟨.invalidArgument, "record type in fragment header is invalid"⟩, w') := by
  have hpos : 0 < payload.length := List.length_pos_iff.mpr hne
  have hblock : WAL_FILE_BLOCK_SIZE = 4096 := rfl
  have hhead : FragmentHeader.diskSize = 22 := rfl
  obtain ⟨n, hn⟩ : ∃ n, payload.length = n + 1 := ⟨payload.length - 1, by omega⟩
  have hpad := ensureFitsInBlock_isAppend (show 0 < WAL_FILE_BLOCK_SIZE by decide)
    (show FragmentHeader.diskSize + 1 ≤ WAL_FILE_BLOCK_SIZE by decide) w hw
  have hroom := fragStart_room w.offset
  have hoff : (w.put (padding w.offset (FragmentHeader.diskSize + 1) WAL_FILE_BLOCK_SIZE) none).offset =
      fragStart w.offset := by
    rw [Writer.put_offset, length_padding, fragStart]
  rw [append_free hfree] at hpad
  refine ⟨w.put (padding w.offset (FragmentHeader.diskSize + 1) WAL_FILE_BLOCK_SIZE) none, ?_⟩
  rw [WALWriter.writePayload, bind_ok (by rw [ensure_apply, if_pos (by simpa using hne)]), hn,
    WALWriter.writePayloadLoop, if_neg hne, bind_ok (checkWalOffset_apply hw), bind_ok hpad, bind_ok (get_apply _)]
  dsimp only
  rw [hoff, bind_ok (by rw [ensure_apply, if_pos (by simp; omega)]),
    bind_ok (by rw [ensure_apply, if_pos (by simp; omega)])]
  have hcrc : ∀ first last piece, (mkFragment r first last piece).computeCrc32 =
      .error ⟨.invalidArgument, "record type in fragment header is invalid"⟩ := by
    intro first last piece
    rw [Fragment.computeCrc32, if_neg (by simp [mkFragment]), if_pos (by simpa [mkFragment] using ht)]
  rw [hcrc]
  rfl

/-- **The fragmentation loop.**  On a file without faults, from any offset on, the payload of a record with a valid type
is written, in fragments that each have a byte of it and lie in one block, that put together are the payload, and with
padding only where a fragment has no room; an invalid type is refused.  No branch of the loop finds too little room. -/
theorem writePayload_fragments (r : InternalRecord) {payload : List UInt8} (hne : payload ≠ []) {w : Writer Status}
    (hw : w.Synced) (hfree : w.room = none) :
    if r.type.isValid then
      ∃ fs d, WALWriter.writePayload payload r w = (.ok (), w.put d none) ∧ Laid w.offset fs d ∧ Chained fs ∧
        fs.flatMap Fragment.payload = payload ∧ ∀ f ∈ fs, f.header.type = r.type ∧ f.header.seqNum = r.seqNum
    else
      ∃ e w', WALWriter.writePayload payload r w = (.err e, w') ∧ e.code = .invalidArgument := by
  by_cases ht : r.type.isValid = true
  · rw [if_pos ht]
    refine ⟨fragmentsOf r payload.length w.offset true payload, _, ?_, fragmentsOf_laid ht _ _ _ _,
      chained_fragmentsOf _ _ _ hne (Nat.le_refl _), payloads_fragmentsOf _ _ _ _ (Nat.le_refl _), ?_⟩
    · rw [WALWriter.writePayload, bind_ok (by rw [ensure_apply, if_pos (by simpa using hne)]),
        writePayloadLoop_isAppend ht _ _ _ w hw, append_free hfree]
    · exact header_fragmentsOf _ _ _ _
  · rw [if_neg ht]
    obtain ⟨w', h⟩ := writePayload_invalid (by simpa using ht) hne hw hfree
    exact ⟨_, w', h, rfl⟩

omit [Zlib] in
theorem writePayload_fragments_twoBlocks : ∃ fs d,
    @WALWriter.writePayload documentedZlib (List.replicate 5000 7) ⟨.ofByte 1, .empty, .put, 1⟩
      ⟨[], 0, none, ⟨.ioError, ""⟩⟩ = (.ok (), (⟨[], 0, none, ⟨.ioError, ""⟩⟩ : Writer Status).put
        d none) ∧
    Laid 0 fs d ∧ Chained fs ∧ fs.flatMap Fragment.payload = List.replicate 5000 7 := by
  have hne : List.replicate 5000 (7 : UInt8) ≠ [] := by
    intro hnil
    have hlen := congrArg List.length hnil
    rw [List.length_replicate, List.length_nil] at hlen
    omega
  have hw : (⟨[], 0, none, ⟨.ioError, ""⟩⟩ : Writer Status).Synced := rfl
  obtain ⟨fs, d, hwrite, hlaid, hchained, hjoined, -⟩ :=
    @writePayload_fragments documentedZlib ⟨.ofByte 1, .empty, .put, 1⟩ (List.replicate 5000 7) hne _ hw rfl
  exact ⟨fs, d, hwrite, hlaid, hchained, hjoined⟩

end Kvdb
