import Kvdb.Lib.Append

/-!
# Programs that append and give a result

`Emits m off d a`: from every synced writer at the offset `off`, `m` does what one
append of `d` does, and then gives `a`.  Whether an append of `d` ends well is up
to the faults of the writer; when it does, the file ends in `d` (`Emits.ok_bytes`).

    Emits m off d a → Emits (k a) (off + d.length) e b → Emits (m >>= k) off (d ++ e) b
-/

namespace Faulty

variable {ε α β : Type}

def Emits (m : WriterM ε α) (off : Nat) (d : List UInt8) (a : α) : Prop :=
  ∀ w : Writer ε, w.Synced → w.offset = off → m w = (append d >>= fun _ => pure a) w

section

variable {m : WriterM ε α} {off : Nat} {d e : List UInt8} {a : α} {b : β}

theorem emits_pure (a : α) (off : Nat) : Emits (pure a : WriterM ε α) off [] a := fun _ _ _ => rfl

/-- A program that does what an append does. -/
theorem emits_of_append {m : WriterM ε Unit}
    (h : ∀ w : Writer ε, w.Synced → w.offset = off → m w = append d w) : Emits m off d () := by
  intro w hw ho
  rw [h w hw ho, bind_apply]
  cases append d w with
  | mk r w' =>
    cases r with
    | ok u => rfl
    | err e => rfl
    | crash => rfl

theorem IsAppend.emits {m : WriterM ε Unit} {enc : Nat → List UInt8} (h : IsAppend m enc) (off : Nat) :
    Emits m off (enc off) () :=
  emits_of_append fun w hw ho => by rw [h w hw, ho]

/-- What a finished program gave, and what it left. -/
theorem Emits.ok_bytes (h : Emits m off d a) {w w' : Writer ε} (hw : w.Synced) (ho : w.offset = off) {x : α}
    (hok : m w = (.ok x, w')) : x = a ∧ w'.Synced ∧ w'.offset = off + d.length ∧ w'.bytes = w.bytes ++ d := by
  rw [h w hw ho] at hok
  obtain ⟨u, w₁, happ, hpure⟩ := bind_eq_ok hok
  cases hpure
  have hs := append_synced d hw
  rw [happ] at hs
  have hb := append_ok_bytes happ
  refine ⟨rfl, hs, ?_, hb⟩
  rw [hs, hb, List.length_append, ← ho, hw]

/-- Without a fault the program is done. -/
theorem Emits.free (h : Emits m off d a) {w : Writer ε} (hw : w.Synced) (ho : w.offset = off)
    (hr : w.room = none) : m w = (.ok a, w.put d none) := by
  rw [h w hw ho, bind_ok (append_free hr)]
  rfl

theorem Emits.bind {k : α → WriterM ε β} (hm : Emits m off d a) (hk : Emits (k a) (off + d.length) e b) :
    Emits (m >>= k) off (d ++ e) b := by
  intro w hw ho
  rw [bind_apply, hm w hw ho, bind_apply, bind_apply, ← append_append, bind_apply]
  have hs := append_synced d hw
  cases happ : append d w with
  | mk r w' =>
    rw [happ] at hs
    cases r with
    | ok u =>
      have hb := append_ok_bytes happ
      have ho' : w'.offset = off + d.length := by
        rw [hs, hb, List.length_append, ← ho, hw]
      exact hk w' hs ho'
    | err e => rfl
    | crash => rfl

/-- A program that appends nothing in front. -/
theorem Emits.then {k : α → WriterM ε β} (hm : Emits m off [] a) (hk : Emits (k a) off e b) :
    Emits (m >>= k) off e b :=
  hm.bind hk

theorem Emits.last {k : α → WriterM ε β} (hm : Emits m off d a) (hk : Emits (k a) (off + d.length) [] b) :
    Emits (m >>= k) off d b := by
  have h := hm.bind hk
  rw [List.append_nil] at h
  exact h

/-- Two programs without results in front of a third. -/
theorem Emits.seq {m k : WriterM ε Unit} {l : WriterM ε β} (hmk : Emits (m >>= fun _ => k) off d ())
    (hl : Emits l (off + d.length) e b) : Emits (m >>= fun _ => k >>= fun _ => l) off (d ++ e) b := by
  have hassoc : (m >>= fun _ => k >>= fun _ => l) = ((m >>= fun _ => k) >>= fun _ => l) := by
    funext w
    rw [bind_apply, bind_apply, bind_apply]
    cases m w with
    | mk r w' =>
      cases r with
      | ok u => rfl
      | err e => rfl
      | crash => rfl
  rw [hassoc]
  exact hmk.bind hl

theorem Emits.lift {x : Except ε α} {k : α → WriterM ε β} (hx : x = .ok a) (hk : Emits (k a) off d b) :
    Emits (Faulty.lift x >>= k) off d b := by
  subst hx
  exact hk

theorem Emits.guard {c : Bool} {err : ε} {k : Unit → WriterM ε β} (hc : c = true) (hk : Emits (k ()) off d b) :
    Emits (ensure c err >>= k) off d b := by
  intro w hw ho
  rw [bind_ok (by rw [ensure_apply, if_pos hc])]
  exact hk w hw ho

/-- A program that looks at the writer. -/
theorem Emits.get {k : Writer ε → WriterM ε β}
    (h : ∀ w : Writer ε, w.Synced → w.offset = off → Emits (k w) off d b) :
      Emits (Faulty.get >>= k) off d b := by
  intro w hw ho
  rw [bind_ok (get_apply w)]
  exact h w hw ho w hw ho

theorem Emits.of_eq {d' : List UInt8} (h : Emits m off d a) (hd : d = d') : Emits m off d' a := hd ▸ h

end

end Faulty
