import Kvdb.Lib.Prog

/-!
# Files that are only appended to

`Writer` is such a file as the code writing it sees it: the bytes in the file
(the cursor stands at their end), the offset the caller keeps on its own, and
`room`: how many further bytes the file takes before an append fails or the
process is lost (`none`: no fault).  The append in progress when the room is
used up keeps the bytes that still fitted.

A program is an append of `enc` (`IsAppend`) when, from any writer whose
tracked offset is the file's length, it does exactly what one append of
`enc offset` does, whatever the fault:

    IsAppend m f → IsAppend k g → IsAppend (m; k) (fun o => f o ++ g (o + (f o).length))

so a writer made of many small appends is the append of its whole encoding
(`append_append`), and a fault anywhere leaves a prefix of that encoding.
-/

namespace Faulty

/-- The fault waiting for a writer: after `bytes` further bytes the append
fails, or the process is lost. -/
structure Cut where
  bytes : Nat
  crash : Bool
deriving DecidableEq, Repr

structure Writer (ε : Type) where
  bytes : List UInt8
  offset : Nat
  room : Option Cut
  /-- the error an append reports when it cannot write on -/
  error : ε
deriving DecidableEq, Repr

variable {ε : Type}

namespace Writer

/-- The tracked offset is the position of the file's cursor. -/
def Synced (w : Writer ε) : Prop := w.offset = w.bytes.length

/-- The writer after `data` reached the file, with `room` left. -/
def put (w : Writer ε) (data : List UInt8) (room : Option Cut) : Writer ε :=
  { w with bytes := w.bytes ++ data, offset := w.offset + data.length, room }

@[simp] theorem put_bytes (w : Writer ε) (d : List UInt8) (r : Option Cut) :
    (w.put d r).bytes = w.bytes ++ d := rfl

@[simp] theorem put_offset (w : Writer ε) (d : List UInt8) (r : Option Cut) :
    (w.put d r).offset = w.offset + d.length := rfl

@[simp] theorem put_room (w : Writer ε) (d : List UInt8) (r : Option Cut) :
    (w.put d r).room = r := rfl

@[simp] theorem put_put (w : Writer ε) (a b : List UInt8) (r r' : Option Cut) :
    (w.put a r).put b r' = w.put (a ++ b) r' := by
  simp [put, Nat.add_assoc]

/-- The same file with another fault waiting for it. -/
def withRoom (w : Writer ε) (room : Option Cut) : Writer ε := { w with room }

@[simp] theorem withRoom_bytes (w : Writer ε) (r : Option Cut) : (w.withRoom r).bytes = w.bytes := rfl

@[simp] theorem withRoom_offset (w : Writer ε) (r : Option Cut) : (w.withRoom r).offset = w.offset := rfl

@[simp] theorem withRoom_room (w : Writer ε) (r : Option Cut) : (w.withRoom r).room = r := rfl

theorem Synced.withRoom {w : Writer ε} (h : w.Synced) (r : Option Cut) : (w.withRoom r).Synced := h

theorem Synced.put {w : Writer ε} (h : w.Synced) (d : List UInt8) (r : Option Cut) :
    (w.put d r).Synced := by
  simp only [Synced, put_offset, put_bytes, List.length_append]
  rw [h]

end Writer

abbrev WriterM (ε : Type) := Prog (Writer ε) ε

/-- Append `data`; the bytes that get through before a fault stay in the file. -/
def append (data : List UInt8) : WriterM ε Unit := fun w =>
  if data = [] then (.ok (), w)
  else
    match w.room with
    | none => (.ok (), w.put data none)
    | some c =>
      if data.length < c.bytes then (.ok (), w.put data (some { c with bytes := c.bytes - data.length }))
      else
        (if c.crash then .crash else .err w.error, w.put (data.take c.bytes) (some { c with bytes := 0 }))

@[simp] theorem append_nil (w : Writer ε) : append [] w = (.ok (), w) := rfl

theorem append_free {data : List UInt8} {w : Writer ε} (h : w.room = none) :
    append data w = (.ok (), w.put data none) := by
  unfold append
  split
  · next hd => simp [hd, Writer.put, ← h]
  · simp [h]

theorem append_fits {data : List UInt8} {w : Writer ε} {c : Cut} (h : w.room = some c) (hne : data ≠ [])
    (hlt : data.length < c.bytes) :
    append data w = (.ok (), w.put data (some { c with bytes := c.bytes - data.length })) := by
  simp [append, hne, h, hlt]

theorem append_cut {data : List UInt8} {w : Writer ε} {c : Cut} (h : w.room = some c) (hne : data ≠ [])
    (hle : c.bytes ≤ data.length) :
    append data w =
      (if c.crash then .crash else .err w.error, w.put (data.take c.bytes) (some { c with bytes := 0 })) := by
  simp [append, hne, h, Nat.not_lt.mpr hle]

/-- Two appends in a row are one append of both. -/
theorem append_append (a b : List UInt8) (w : Writer ε) :
    (append a >>= fun _ => append b) w = append (a ++ b) w := by
  rcases Decidable.em (a = []) with ha | ha
  · subst ha; simp [bind_apply]
  rcases Decidable.em (b = []) with hb | hb
  · subst hb
    rw [bind_apply, List.append_nil]
    split <;> simp_all
  have hab : a ++ b ≠ [] := by simp [ha]
  cases hr : w.room with
  | none =>
    rw [bind_ok (append_free hr), append_free (by simp), append_free hr]
    simp
  | some c =>
    have hla : 0 < a.length := List.length_pos_iff.mpr ha
    have hlb : 0 < b.length := List.length_pos_iff.mpr hb
    by_cases h1 : a.length < c.bytes
    · rw [bind_ok (append_fits hr ha h1)]
      by_cases h2 : (a ++ b).length < c.bytes
      · have h3 : b.length < c.bytes - a.length := by rw [List.length_append] at h2; omega
        rw [append_fits hr hab h2, append_fits (Writer.put_room _ _ _) hb h3]
        simp [Nat.sub_sub]
      · have h3 : c.bytes - a.length ≤ b.length := by rw [List.length_append] at h2; omega
        rw [append_cut hr hab (Nat.not_lt.mp h2), append_cut (Writer.put_room _ _ _) hb h3]
        have ht : (a ++ b).take c.bytes = a ++ b.take (c.bytes - a.length) := by
          rw [List.take_append, List.take_of_length_le (Nat.le_of_lt h1)]
        simp [ht, Writer.put, Nat.add_assoc]
    · have h1' : c.bytes ≤ a.length := Nat.not_lt.mp h1
      have ht : (a ++ b).take c.bytes = a.take c.bytes := List.take_append_of_le_length h1'
      rw [append_cut hr hab (by simp; omega), ht, bind_apply, append_cut hr ha h1']
      cases c.crash <;> rfl

/-- An append keeps the tracked offset at the end of the file. -/
theorem append_synced (data : List UInt8) {w : Writer ε} (h : w.Synced) : (append data w).2.Synced := by
  unfold append
  split
  · exact h
  · split
    · exact h.put _ _
    · split
      · exact h.put _ _
      · exact h.put _ _

/-- Whatever the fault, the file ends in a prefix of what was to be appended. -/
theorem append_prefix (data : List UInt8) (w : Writer ε) :
    ∃ p, p <+: data ∧ (append data w).2.bytes = w.bytes ++ p := by
  unfold append
  split
  · exact ⟨[], List.nil_prefix, by simp⟩
  · split
    · exact ⟨data, List.prefix_refl _, rfl⟩
    · split
      · exact ⟨data, List.prefix_refl _, rfl⟩
      · exact ⟨_, List.take_prefix _ _, rfl⟩

/-- A finished append put all its bytes into the file. -/
theorem append_ok_bytes {data : List UInt8} {w w' : Writer ε} (h : append data w = (.ok (), w')) :
    w'.bytes = w.bytes ++ data := by
  unfold append at h
  split at h
  · next hd => cases h; simp [hd]
  · split at h
    · cases h; rfl
    · split at h
      · cases h; rfl
      · next c _ _ =>
        have h1 := congrArg Prod.fst h
        cases hc : c.crash <;> simp [hc] at h1

/-! ## Programs that are appends -/

/-- From a synced writer, `m` does what one append of `enc offset` does. -/
def IsAppend (m : WriterM ε Unit) (enc : Nat → List UInt8) : Prop :=
  ∀ w : Writer ε, w.Synced → m w = append (enc w.offset) w

theorem isAppend_append (data : List UInt8) : IsAppend (append data : WriterM ε Unit) fun _ => data :=
  fun _ _ => rfl

theorem isAppend_pure : IsAppend (pure () : WriterM ε Unit) fun _ => [] := fun _ _ => rfl

/-- A program that starts with an append: what follows only matters from synced writers
with the appended bytes behind their offset. -/
theorem bind_congr_append {m k k' : WriterM ε Unit} {d : List UInt8} {w : Writer ε} (hm : m w = append d w)
    (hw : w.Synced) (hk : ∀ w' : Writer ε, w'.Synced → w'.offset = w.offset + d.length → k w' = k' w') :
    (m >>= fun _ => k) w = (append d >>= fun _ => k') w := by
  rw [bind_apply, bind_apply, hm]
  have hs := append_synced d hw
  cases ha : append d w with
  | mk r w' =>
    rw [ha] at hs
    cases r with
    | ok u =>
      have hb := append_ok_bytes ha
      have ho : w'.offset = w.offset + d.length := by
        rw [hs, hb, hw, List.length_append]
      exact hk w' hs ho
    | err e => rfl
    | crash => rfl

theorem IsAppend.bind {m k : WriterM ε Unit} {f g : Nat → List UInt8} (hm : IsAppend m f)
    (hk : IsAppend k g) :
    IsAppend (m >>= fun _ => k) fun o => f o ++ g (o + (f o).length) := by
  intro w hw
  refine (bind_congr_append (hm w hw) hw fun w' hw' ho => ?_).trans (append_append _ _ w)
  rw [hk w' hw', ho]

theorem IsAppend.congr {m : WriterM ε Unit} {f g : Nat → List UInt8} (h : IsAppend m f)
    (hfg : ∀ o, f o = g o) : IsAppend m g := by
  intro w hw
  rw [h w hw, hfg]

/-- Without a fault an append program ends well, with its encoding at the end of the file. -/
theorem IsAppend.free {m : WriterM ε Unit} {f : Nat → List UInt8} (h : IsAppend m f) {w : Writer ε}
    (hw : w.Synced) (hr : w.room = none) : m w = (.ok (), w.put (f w.offset) none) := by
  rw [h w hw, append_free hr]

end Faulty
