import Kvdb.Utils.BlockIO

/-!
# Sequences of fields

A record of several fields is written field by field, each with its own padding.
`FitsAt off ds` says that the fields `ds`, put one directly behind the other from
`off` on, all stay inside their blocks.  Then and only then no padding is
written (`encodeFields_length_iff`), and a reader that expects none finds them
(`ReadsFields`).
-/

namespace Kvdb

open Faulty Bytes

/-- `write_raw_bytes`: nothing for an empty range. -/
def writeRawBytes (d : List UInt8) (blockSize : Nat) : WriterM Status Unit :=
  if d = [] then pure () else writeField d blockSize

/-- One field after the other; empty ones are skipped. -/
def writeFields (blockSize : Nat) : List (List UInt8) → WriterM Status Unit
  | [] => pure ()
  | d :: ds => do
    writeRawBytes d blockSize
    writeFields blockSize ds

/-- What the fields become in a file that ends at `off`. -/
def encodeFields (blockSize : Nat) : Nat → List (List UInt8) → List UInt8
  | _, [] => []
  | off, d :: ds =>
    padding off d.length blockSize ++
      (d ++ encodeFields blockSize (off + padSize off d.length blockSize + d.length) ds)

/-- Directly behind each other from `off` on, no field crosses a block edge. -/
def FitsAt (blockSize : Nat) : Nat → List (List UInt8) → Prop
  | _, [] => True
  | off, d :: ds => (d = [] ∨ d.length ≤ blockSize - off % blockSize) ∧ FitsAt blockSize (off + d.length) ds

instance decidableFitsAt (blockSize : Nat) : ∀ (off : Nat) (ds : List (List UInt8)),
    Decidable (FitsAt blockSize off ds)
  | _, [] => .isTrue trivial
  | off, d :: ds =>
    have := decidableFitsAt blockSize (off + d.length) ds
    inferInstanceAs (Decidable ((d = [] ∨ d.length ≤ blockSize - off % blockSize) ∧ _))

section

variable {blockSize : Nat}

theorem padSize_nil (off : Nat) : padSize off ([] : List UInt8).length blockSize = 0 := by
  simp [padSize]

theorem fitsAt_append (off : Nat) (ds es : List (List UInt8)) :
    FitsAt blockSize off (ds ++ es) ↔
      FitsAt blockSize off ds ∧ FitsAt blockSize (off + ds.flatten.length) es := by
  induction ds generalizing off with
  | nil => simp [FitsAt]
  | cons d ds ih =>
    simp only [List.cons_append, FitsAt, ih, List.flatten_cons, List.length_append, Nat.add_assoc, and_assoc]

theorem encodeFields_append (off : Nat) (ds es : List (List UInt8)) :
    encodeFields blockSize off (ds ++ es) =
      encodeFields blockSize off ds ++
        encodeFields blockSize (off + (encodeFields blockSize off ds).length) es := by
  induction ds generalizing off with
  | nil => simp [encodeFields]
  | cons d ds ih =>
    simp only [List.cons_append, encodeFields, ih, List.length_append, length_padding, List.append_assoc]
    congr 4
    omega

theorem encodeFields_of_fits {off : Nat} {ds : List (List UInt8)} (h : FitsAt blockSize off ds) :
    encodeFields blockSize off ds = ds.flatten := by
  induction ds generalizing off with
  | nil => rfl
  | cons d ds ih =>
    obtain ⟨hd, hds⟩ := h
    have hp : padSize off d.length blockSize = 0 := by
      rcases hd with h0 | hle
      · rw [h0]
        exact padSize_nil off
      · exact padSize_of_fits hle
    rw [encodeFields, padding, hp, List.flatten_cons, Nat.add_zero, ih hds]
    rfl

theorem flatten_length_le (off : Nat) (ds : List (List UInt8)) :
    ds.flatten.length ≤ (encodeFields blockSize off ds).length := by
  induction ds generalizing off with
  | nil => exact Nat.le_refl _
  | cons d ds ih =>
    have h := ih (off + padSize off d.length blockSize + d.length)
    simp only [encodeFields, List.flatten_cons, List.length_append]
    omega

/-- No padding was written exactly when all the fields fit directly behind each other. -/
theorem encodeFields_length_iff {off : Nat} {ds : List (List UInt8)} (hle : ∀ d ∈ ds, d.length ≤ blockSize) :
    (encodeFields blockSize off ds).length = ds.flatten.length ↔ FitsAt blockSize off ds := by
  constructor
  · intro h
    induction ds generalizing off with
    | nil => trivial
    | cons d ds ih =>
      have hrest := @flatten_length_le blockSize (off + padSize off d.length blockSize + d.length) ds
      simp only [encodeFields, List.flatten_cons, List.length_append, length_padding] at h
      have hp : padSize off d.length blockSize = 0 := by omega
      have hd : d = [] ∨ d.length ≤ blockSize - off % blockSize := by
        by_contra hn
        obtain ⟨hn0, hn1⟩ := not_or.mp hn
        have hd0 : d.length ≠ 0 := by simpa using hn0
        have hb : 0 < blockSize := by
          have := hle d (by simp)
          omega
        have hlt := Nat.mod_lt off hb
        rw [padSize, if_neg (by omega)] at hp
        omega
      refine ⟨hd, ih (fun d' hd' => hle d' (by simp [hd'])) ?_⟩
      rw [hp] at h
      simp only [Nat.add_zero] at h
      omega
  · intro h
    rw [encodeFields_of_fits h]

/-! ## Writing -/

theorem writeRawBytes_isAppend (hb : 0 < blockSize) {d : List UInt8} (hd : d.length ≤ blockSize) :
    IsAppend (writeRawBytes d blockSize) fun off => padding off d.length blockSize ++ d := by
  by_cases h0 : d = []
  · subst h0
    refine isAppend_pure.congr fun off => ?_
    rw [padding, padSize_nil]
    rfl
  · rw [writeRawBytes, if_neg h0]
    exact writeField_isAppend hb hd

theorem writeFields_isAppend (hb : 0 < blockSize) {ds : List (List UInt8)}
    (hle : ∀ d ∈ ds, d.length ≤ blockSize) :
    IsAppend (writeFields blockSize ds) fun off => encodeFields blockSize off ds := by
  induction ds with
  | nil => exact isAppend_pure
  | cons d ds ih =>
    have hrest := ih fun d' hd' => hle d' (by simp [hd'])
    refine ((writeRawBytes_isAppend hb (hle d (by simp))).bind hrest).congr fun off => ?_
    rw [encodeFields, List.append_assoc, List.length_append, length_padding, Nat.add_assoc]

/-- Fields that fit are one append. -/
theorem writeFields_of_fits (hb : 0 < blockSize) {ds : List (List UInt8)} (hle : ∀ d ∈ ds, d.length ≤ blockSize)
    {w : Writer Status} (hw : w.Synced) (hfit : FitsAt blockSize w.offset ds) :
    writeFields blockSize ds w = append ds.flatten w := by
  have h : writeFields blockSize ds w = append (encodeFields blockSize w.offset ds) w :=
    writeFields_isAppend hb hle w hw
  rw [h, encodeFields_of_fits hfit]

/-- A field longer than a block cannot be written. -/
theorem writeField_too_long {d : List UInt8} {w w' : Writer Status} (hlong : blockSize < d.length) :
    writeField d blockSize w ≠ (.ok (), w') := by
  intro h
  rw [writeField] at h
  obtain ⟨_, w₁, h1, -⟩ := bind_eq_ok h
  rw [prepareWrite] at h1
  obtain ⟨_, w₂, -, h2⟩ := bind_eq_ok h1
  obtain ⟨_, w₃, -, h3⟩ := bind_eq_ok h2
  rw [ensureFitsInBlock] at h3
  obtain ⟨_, w₄, -, h4⟩ := bind_eq_ok h3
  obtain ⟨_, w₅, -, h5⟩ := bind_eq_ok h4
  obtain ⟨_, w₆, -, h6⟩ := bind_eq_ok h5
  obtain ⟨_, w₇, h7, -⟩ := bind_eq_ok h6
  rw [ensure_apply, if_neg (by simpa using hlong)] at h7
  cases h7

theorem writeFields_ok_le (hb : 0 < blockSize) {ds : List (List UInt8)} {w w' : Writer Status}
    (hw : w.Synced) (h : writeFields blockSize ds w = (.ok (), w')) : ∀ d ∈ ds, d.length ≤ blockSize := by
  induction ds generalizing w with
  | nil => simp
  | cons d ds ih =>
    rw [writeFields] at h
    obtain ⟨u, w₁, h1, h2⟩ := bind_eq_ok h
    have hd : d.length ≤ blockSize := by
      by_cases h0 : d = []
      · rw [h0]
        exact Nat.zero_le _
      · rw [writeRawBytes, if_neg h0] at h1
        by_contra hlong
        exact writeField_too_long (by omega) h1
    have hw₁ : w₁.Synced := by
      rw [writeRawBytes_isAppend hb hd w hw] at h1
      have hs := append_synced (padding w.offset d.length blockSize ++ d) hw
      rw [h1] at hs
      exact hs
    intro d' hd'
    rcases List.mem_cons.mp hd' with rfl | hd'
    · exact hd
    · exact ih hw₁ h2 d' hd'

/-! ## Programs that write fields -/

theorem writeField_too_long_apply (hb : 0 < blockSize) {d : List UInt8} {w : Writer Status} (hw : w.Synced)
    (hlong : blockSize < d.length) :
    writeField d blockSize w = (.err ⟨.sizeExceedsBlockSize, "Size exceeds block size"⟩, w) := by
  have hb0 : (blockSize != 0) = true := by simp; omega
  have ho : (w.offset == w.bytes.length) = true := beq_iff_eq.mpr hw
  have hsize : ¬ decide (d.length ≤ blockSize) = true := by simpa using hlong
  have hens : ensureFitsInBlock d.length blockSize w =
      (.err ⟨.sizeExceedsBlockSize, "Size exceeds block size"⟩, w) := by
    rw [ensureFitsInBlock, bind_ok (by rw [ensure_apply, if_pos hb0]), bind_ok (get_apply w),
      bind_ok (by rw [ensure_apply, if_pos ho]), bind_err (by rw [ensure_apply, if_neg hsize])]
  have hprep : prepareWrite d.length blockSize w =
      (.err ⟨.sizeExceedsBlockSize, "Size exceeds block size"⟩, w) := by
    rw [prepareWrite, bind_ok (by rw [ensure_apply, if_pos hb0]), bind_ok (checkWriterOffset_apply hw), hens]
  rw [writeField, bind_err hprep]

theorem writeRawBytes_synced (hb : 0 < blockSize) (d : List UInt8) {w : Writer Status} (hw : w.Synced) :
    (writeRawBytes d blockSize w).2.Synced := by
  by_cases hd : d.length ≤ blockSize
  · rw [writeRawBytes_isAppend hb hd w hw]
    exact append_synced _ hw
  · have h0 : d ≠ [] := by
      rintro rfl
      exact hd (Nat.zero_le _)
    rw [writeRawBytes, if_neg h0, writeField_too_long_apply hb hw (by omega)]
    exact hw

theorem writeFields_append (ds es : List (List UInt8)) (w : Writer Status) :
    writeFields blockSize (ds ++ es) w = (writeFields blockSize ds >>= fun _ => writeFields blockSize es) w := by
  induction ds generalizing w with
  | nil => rfl
  | cons d ds ih =>
    simp only [List.cons_append, writeFields, bind_apply]
    cases writeRawBytes d blockSize w with
    | mk r w' =>
      cases r with
      | ok u =>
        have h := ih w'
        rw [bind_apply] at h
        exact h
      | err e => rfl
      | crash => rfl

theorem writeFields_synced (hb : 0 < blockSize) (ds : List (List UInt8)) {w : Writer Status} (hw : w.Synced) :
    (writeFields blockSize ds w).2.Synced := by
  induction ds generalizing w with
  | nil => exact hw
  | cons d ds ih =>
    have hd := writeRawBytes_synced hb d hw
    rw [writeFields, bind_apply]
    cases hr : writeRawBytes d blockSize w with
    | mk r w' =>
      rw [hr] at hd
      cases r with
      | ok u => exact ih hd
      | err e => exact hd
      | crash => exact hd

/-- From a synced writer `m` does what writing the fields `ds` one after the other does. -/
def WritesFields (blockSize : Nat) (m : WriterM Status Unit) (ds : List (List UInt8)) : Prop :=
  ∀ w : Writer Status, w.Synced → m w = writeFields blockSize ds w

theorem writesFields_pure : WritesFields blockSize (pure ()) [] := fun _ _ => rfl

theorem writesFields_writeField {d : List UInt8} (hne : d ≠ []) :
    WritesFields blockSize (writeField d blockSize) [d] := by
  intro w _
  have hraw : writeRawBytes d blockSize = writeField d blockSize := by rw [writeRawBytes, if_neg hne]
  rw [writeFields, hraw, bind_apply]
  cases writeField d blockSize w with
  | mk r w' => cases r <;> rfl

theorem writesFields_check (m : WriterM Status Unit) (h : ∀ w : Writer Status, w.Synced → m w = (.ok (), w)) :
    WritesFields blockSize m [] := fun w hw => h w hw

theorem WritesFields.bind (hb : 0 < blockSize) {m k : WriterM Status Unit} {ds es : List (List UInt8)}
    (hm : WritesFields blockSize m ds) (hk : WritesFields blockSize k es) :
    WritesFields blockSize (m >>= fun _ => k) (ds ++ es) := by
  intro w hw
  have hs := writeFields_synced hb ds hw
  rw [writeFields_append, bind_apply, bind_apply, hm w hw]
  cases hr : writeFields blockSize ds w with
  | mk r w' =>
    rw [hr] at hs
    cases r with
    | ok u => exact hk w' hs
    | err e => rfl
    | crash => rfl

theorem WritesFields.lift {α : Type} {x : Except Status α} {a : α} {k : α → WriterM Status Unit}
    {ds : List (List UInt8)} (hx : x = .ok a) (hk : WritesFields blockSize (k a) ds) :
    WritesFields blockSize (Faulty.lift x >>= k) ds := by
  subst hx
  exact hk

/-! ## Reading -/

/-- `r` reads the fields `ds`, directly behind each other, as `a`. -/
def ReadsFields {α : Type} (blockSize : Nat) (r : FileReader α) (ds : List (List UInt8)) (a : α) : Prop :=
  ∀ (file : ReadableFile) (off : Nat), file.Sound → FitsAt blockSize off ds → At file.bytes off ds.flatten →
    r file off = .ok (a, off + ds.flatten.length)

variable {α β : Type} {ds es : List (List UInt8)}

theorem readsFields_pure (a : α) : ReadsFields blockSize (pure a) [] a := fun _ _ _ _ _ => rfl

theorem Decodes.readsFields {r : FileReader α} {d : List UInt8} {a : α} (h : Decodes blockSize r d a) :
    ReadsFields blockSize r [d] a := by
  intro file off hf hfit hat
  rw [List.flatten_cons, List.flatten_nil, List.append_nil] at hat ⊢
  exact h file off hf hfit.1 hat

theorem ReadsFields.bind {r : FileReader α} {k : α → FileReader β} {a : α} {b : β}
    (hr : ReadsFields blockSize r ds a) (hk : ReadsFields blockSize (k a) es b) :
    ReadsFields blockSize (r >>= k) (ds ++ es) b := by
  intro file off hf hfit hat
  obtain ⟨hfd, hfe⟩ := (fitsAt_append off ds es).mp hfit
  rw [List.flatten_append] at hat ⊢
  rw [Reader.bind_ok (hr file off hf hfd hat.left), hk file _ hf hfe hat.right, List.length_append,
    Nat.add_assoc]

/-- A first field, and what is read behind it. -/
theorem Decodes.cons {r : FileReader α} {k : α → FileReader β} {d : List UInt8} {a : α} {b : β}
    (hr : Decodes blockSize r d a) (hk : ReadsFields blockSize (k a) es b) :
    ReadsFields blockSize (r >>= k) (d :: es) b :=
  hr.readsFields.bind hk

theorem ReadsFields.last {r : FileReader α} {k : α → FileReader β} {a : α} {b : β}
    (hr : ReadsFields blockSize r ds a) (hk : ReadsFields blockSize (k a) [] b) :
    ReadsFields blockSize (r >>= k) ds b := by
  have h := hr.bind hk
  rw [List.append_nil] at h
  exact h

theorem ReadsFields.guard {c : Bool} {err : Status} {k : Unit → FileReader β} {b : β} (hc : c = true)
    (hk : ReadsFields blockSize (k ()) ds b) : ReadsFields blockSize (Reader.ensure c err >>= k) ds b := by
  intro file off hf hfit hat
  rw [Reader.ensure_bind hc]
  exact hk file off hf hfit hat

theorem ReadsFields.lift {x : Except Status α} {k : α → FileReader β} {a : α} {b : β} (hx : x = .ok a)
    (hk : ReadsFields blockSize (k a) ds b) : ReadsFields blockSize (Reader.lift x >>= k) ds b := by
  subst hx
  exact hk

end

end Kvdb
