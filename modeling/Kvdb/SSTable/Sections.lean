import Kvdb.Lib.Emit
import Kvdb.SSTable.BloomSection

/-!
# Sections of a table file

What the writers of the sections share: the check of the cursor, the alignment to
the next block, and programs that put a section into one block.
-/

namespace Kvdb

open Faulty Bytes

/-- The tracked offset is the position of the file's cursor. -/
def checkCursor (message : String) : WriterM Status Unit := do
  let w ← Faulty.get
  ensure (w.bytes.length == w.offset) ⟨.invalidOffset, message⟩

/-- What the alignment to a block edge appends at `off`. -/
def alignment (off : Nat) : List UInt8 := List.replicate ((BLOCK_SIZE - off % BLOCK_SIZE) % BLOCK_SIZE) 0xCD

/-- The place of the next block edge. -/
def aligned (off : Nat) : Nat := off + (alignment off).length

theorem length_alignment_lt (off : Nat) : (alignment off).length < BLOCK_SIZE := by
  rw [alignment, List.length_replicate]
  exact Nat.mod_lt _ (by decide)

theorem alignment_of_edge {off : Nat} (h : off % BLOCK_SIZE = 0) : alignment off = [] := by
  rw [alignment, h, Nat.sub_zero, Nat.mod_self]
  rfl

theorem aligned_mod (off : Nat) : aligned off % BLOCK_SIZE = 0 := by
  have hlt := Nat.mod_lt off (show 0 < BLOCK_SIZE by decide)
  rw [aligned, alignment, List.length_replicate]
  by_cases h : off % BLOCK_SIZE = 0
  · rw [h, Nat.sub_zero, Nat.mod_self]
    exact h
  · have hdiv := Nat.div_add_mod off BLOCK_SIZE
    have hedge : off + (BLOCK_SIZE - off % BLOCK_SIZE) = BLOCK_SIZE * (off / BLOCK_SIZE + 1) := by
      rw [Nat.mul_add, Nat.mul_one]
      omega
    rw [Nat.mod_eq_of_lt (show BLOCK_SIZE - off % BLOCK_SIZE < BLOCK_SIZE by omega), hedge, Nat.mul_mod_right]

theorem aligned_of_edge {off : Nat} (h : off % BLOCK_SIZE = 0) : aligned off = off := by
  rw [aligned, alignment_of_edge h]
  rfl

/-- Behind an edge and less than a block the next edge is one block further. -/
theorem aligned_add {off n : Nat} (h : off % BLOCK_SIZE = 0) (hpos : 0 < n) (hn : n ≤ BLOCK_SIZE) :
    aligned (off + n) = off + BLOCK_SIZE := by
  have hblock : BLOCK_SIZE = 4096 := rfl
  rw [aligned, alignment, List.length_replicate]
  rw [hblock] at h hn ⊢
  omega

theorem le_aligned (off : Nat) : off ≤ aligned off := Nat.le_add_right _ _

section

variable {k : WriterM Status Unit} {d : List UInt8} {off : Nat}

theorem checkCursor_apply (message : String) {w : Writer Status} (hw : w.Synced) :
    checkCursor message w = (.ok (), w) := by
  rw [checkCursor, bind_ok (get_apply w), ensure_apply, if_pos (beq_iff_eq.mpr hw.symm)]

theorem emits_checkCursor (message : String) (off : Nat) : Emits (checkCursor message) off [] () :=
  emits_of_append fun _ hw _ => checkCursor_apply message hw

theorem emits_align (off : Nat) : Emits (alignToBlockBoundary BLOCK_SIZE) off (alignment off) () := by
  refine emits_of_append fun w hw ho => ?_
  subst ho
  have hlt := Nat.mod_lt w.offset (show 0 < BLOCK_SIZE by decide)
  by_cases h : w.offset % BLOCK_SIZE = 0
  · have hsync : (w.offset == w.bytes.length) = true := beq_iff_eq.mpr hw
    rw [alignment_of_edge h, alignToBlockBoundary, bind_ok (by rw [ensure_apply, if_pos (by decide)]),
      bind_ok (get_apply w), bind_ok (by rw [ensure_apply, if_pos hsync]), if_pos h]
    rfl
  · rw [alignToBlockBoundary_apply (by decide) hw h, alignment,
      Nat.mod_eq_of_lt (show BLOCK_SIZE - w.offset % BLOCK_SIZE < BLOCK_SIZE by omega)]

theorem emits_fitsHere {size : Nat} (h : size ≤ BLOCK_SIZE - off % BLOCK_SIZE) :
    Emits (BloomSection.fitsHere size) off [] () := by
  refine emits_of_append fun w _ ho => ?_
  subst ho
  have hok : fitsInBlock w.offset size BLOCK_SIZE = .ok () := by
    unfold fitsInBlock
    rw [if_neg (by decide)]
    by_cases h0 : size = 0
    · rw [if_pos h0]
    · rw [if_neg h0, if_pos h]
  rw [BloomSection.fitsHere, bind_ok (get_apply w), hok]
  rfl

/-! ## Sections in one block -/

/-- Where the bytes fit into the block, a fitting program emits them. -/
theorem AppendsFitting.emits (h : AppendsFitting BLOCK_SIZE k d) (hfit : d.length ≤ BLOCK_SIZE - off % BLOCK_SIZE) :
    Emits k off d () :=
  emits_of_append fun w hw ho => h w hw (.inr (ho ▸ hfit))

/-- At a block edge everything fits that is not longer than a block. -/
theorem AppendsFitting.emits_edge (h : AppendsFitting BLOCK_SIZE k d) (hedge : off % BLOCK_SIZE = 0)
    (hd : d.length ≤ BLOCK_SIZE) : Emits k off d () :=
  h.emits (by rw [hedge]; exact hd)

theorem checkCursor_fitting (message : String) : AppendsFitting BLOCK_SIZE (checkCursor message) [] :=
  fun _ hw _ => checkCursor_apply message hw

theorem lift_fitting {α : Type} {x : Except Status α} {a : α} {k : α → WriterM Status Unit} (hx : x = .ok a)
    (hk : AppendsFitting BLOCK_SIZE (k a) d) : AppendsFitting BLOCK_SIZE (lift x >>= k) d := by
  subst hx
  exact hk

/-- A range of bytes, which may be empty. -/
theorem writeBytes_fitting (d : List UInt8) : AppendsFitting BLOCK_SIZE (writeBytes d BLOCK_SIZE) d := by
  intro w hw hfit
  have hpad : padding w.offset d.length BLOCK_SIZE = [] := by
    rcases hfit with rfl | hle
    · rfl
    · exact padding_of_fits hle
  have hle : d.length ≤ BLOCK_SIZE := by
    rcases hfit with rfl | hle
    · exact Nat.zero_le _
    · omega
  have happ : writeBytes d BLOCK_SIZE w = append (padding w.offset d.length BLOCK_SIZE ++ d) w :=
    writeField_isAppend (by decide) hle w hw
  rw [happ, hpad, List.nil_append]

theorem writeU8_fitting (x : UInt8) : AppendsFitting BLOCK_SIZE (writeU8 x BLOCK_SIZE) (u8Bytes x) :=
  writeBytes_fitting _

theorem writeU32_fitting (x : UInt32) : AppendsFitting BLOCK_SIZE (writeU32Le x BLOCK_SIZE) (u32Bytes x) :=
  writeBytes_fitting _

theorem writeU64_fitting (x : UInt64) : AppendsFitting BLOCK_SIZE (writeU64Le x BLOCK_SIZE) (u64Bytes x) :=
  writeBytes_fitting _

/-! ## The Bloom section -/

variable [Zlib]

/-- A valid Bloom section is written into one block, behind the alignment. -/
theorem BloomSection.emits_write {b : BloomSection} (h : b.payload.validate = .ok ()) (off : Nat) :
    Emits b.write off (alignment off ++ BloomSection.encode (.ofPayload b.payload))
      (.ofPayload b.payload, aligned off) := by
  have hcursor : Emits BloomSection.validateCursor off [] () :=
    emits_of_append fun _ hw _ => BloomSection.validateCursor_apply hw
  have hbody : Emits (BloomSection.writeAligned (.ofPayload b.payload)) (aligned off)
      (BloomSection.encode (.ofPayload b.payload)) () :=
    emits_of_append fun w hw ho => BloomSection.writeAligned_apply h hw (by rw [ho]; exact aligned_mod off)
  refine hcursor.then (Emits.lift h ((emits_align off).bind (.get fun w hw ho => ?_)))
  rw [show w.offset = aligned off from ho]
  exact hbody.last (emits_pure _ _)

/-- A rebuilt Bloom section is valid, and has the header of its payload. -/
theorem BloomSection.rebuild_ok {blocks : List (List DataSection.Payload)} {b : BloomSection}
    (h : BloomSection.rebuild blocks = .ok b) : b.payload.validate = .ok () ∧ b = .ofPayload b.payload := by
  rw [BloomSection.rebuild_eq] at h
  rcases BloomSection.Payload.addKeys_spec (blocks.flatten.map DataSection.Payload.key)
    BloomSection.Payload.validate_blank with ⟨-, p, hp, hv, -, -⟩ | ⟨-, herr⟩
  · rw [hp] at h
    cases h
    exact ⟨hv, rfl⟩
  · rw [herr] at h
    cases h

end

end Kvdb
