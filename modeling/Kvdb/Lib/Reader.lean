import Mathlib.Data.List.Basic

/-!
# Readers at a moving offset

`Reader φ ε α` reads from a file `φ` at an offset and gives a value with the
offset behind it, or an error; the caller of a failed reader keeps the offset
it started from.
-/

namespace Bytes

def Reader (φ ε α : Type) : Type := φ → Nat → Except ε (α × Nat)

namespace Reader

variable {φ ε α β : Type}

def bind (m : Reader φ ε α) (k : α → Reader φ ε β) : Reader φ ε β := fun f off =>
  match m f off with
  | .ok (a, off') => k a f off'
  | .error e => .error e

instance : Monad (Reader φ ε) where
  pure a := fun _ off => .ok (a, off)
  bind := bind

/-- Report an error. -/
def fail (e : ε) : Reader φ ε α := fun _ _ => .error e

/-- Report the error of an `Except` value, or return its result. -/
def lift : Except ε α → Reader φ ε α
  | .ok a => pure a
  | .error e => fail e

/-- Report `e` unless the condition holds. -/
def ensure (b : Bool) (e : ε) : Reader φ ε Unit := if b then pure () else fail e

/-- The current offset. -/
def offset : Reader φ ε Nat := fun _ off => .ok (off, off)

@[simp] theorem pure_apply (a : α) (f : φ) (off : Nat) :
    (pure a : Reader φ ε α) f off = .ok (a, off) := rfl

@[simp] theorem fail_apply (e : ε) (f : φ) (off : Nat) : (fail e : Reader φ ε α) f off = .error e := rfl

@[simp] theorem offset_apply (f : φ) (off : Nat) :
    (offset : Reader φ ε Nat) f off = .ok (off, off) := rfl

@[simp] theorem ensure_apply (b : Bool) (e : ε) (f : φ) (off : Nat) :
    (ensure b e : Reader φ ε Unit) f off = if b then .ok ((), off) else .error e := by
  unfold ensure
  split <;> rfl

theorem bind_apply (m : Reader φ ε α) (k : α → Reader φ ε β) (f : φ) (off : Nat) :
    (m >>= k) f off = match m f off with
      | .ok (a, off') => k a f off'
      | .error e => .error e := rfl

theorem bind_assoc {γ : Type} (m : Reader φ ε α) (k : α → Reader φ ε β) (k' : β → Reader φ ε γ) :
    m >>= k >>= k' = m >>= fun a => k a >>= k' := by
  funext f off
  rw [bind_apply, bind_apply, bind_apply]
  cases m f off with
  | ok r => rfl
  | error e => rfl

theorem pure_bind (a : α) (k : α → Reader φ ε β) : pure a >>= k = k a := rfl

theorem bind_ok {m : Reader φ ε α} {k : α → Reader φ ε β} {f : φ} {off off' : Nat} {a : α}
    (h : m f off = .ok (a, off')) : (m >>= k) f off = k a f off' := by
  rw [bind_apply, h]

theorem bind_error {m : Reader φ ε α} {k : α → Reader φ ε β} {f : φ} {off : Nat} {e : ε}
    (h : m f off = .error e) : (m >>= k) f off = .error e := by
  rw [bind_apply, h]

theorem ensure_bind {b : Bool} {e : ε} {k : Unit → Reader φ ε β} {f : φ} {off : Nat} (h : b = true) :
    (ensure b e >>= k) f off = k () f off := by
  subst h
  rfl

/-- A sequence that gave a value: the first reader gave one, and the rest read on from there. -/
theorem bind_eq_ok {m : Reader φ ε α} {k : α → Reader φ ε β} {f : φ} {off off'' : Nat} {b : β}
    (h : (m >>= k) f off = .ok (b, off'')) :
    ∃ a off', m f off = .ok (a, off') ∧ k a f off' = .ok (b, off'') := by
  rw [bind_apply] at h
  split at h
  · next a off' hm => exact ⟨a, off', hm, h⟩
  · cases h

theorem lift_ok {x : Except ε α} {f : φ} {off off' : Nat} {a : α} (h : lift x f off = .ok (a, off')) :
    x = .ok a ∧ off' = off := by
  cases x with
  | ok b =>
    cases h
    exact ⟨rfl, rfl⟩
  | error e => cases h

/-- A check in front of a reader that gave a value was passed. -/
theorem ensure_bind_eq_ok {c : Bool} {e : ε} {k : Unit → Reader φ ε β} {f : φ} {off : Nat} {r : β × Nat}
    (h : (ensure c e >>= k) f off = .ok r) : c = true ∧ k () f off = .ok r := by
  cases c with
  | true => exact ⟨rfl, h⟩
  | false => cases h

theorem offset_bind {k : Nat → Reader φ ε β} {f : φ} {off : Nat} : (offset >>= k) f off = k off f off := rfl

end Reader

end Bytes
