/-!
# Programs over a state that can fail or lose the process

`Prog σ ε α` is a state transformer with three ways to end: a result, a
reported error, or the loss of the process (`crash`).  The state reached is
kept in all three: what an operation did before it failed stays done.

* `>>=` stops at the first error or crash.
* `orElse m h` runs the handler `h` on a reported error and passes a crash on.
* `bind_ok`, `bind_err`, `bind_crash` run a sequence forwards, `bind_eq_ok` takes
  a finished one apart; a proof about a program never unfolds `bind`.
-/

namespace Faulty

/-- How a program ends. -/
inductive Outcome (ε α : Type) where
  | ok (a : α)
  | err (e : ε)
  | crash
deriving DecidableEq, Repr

namespace Outcome

variable {ε α β : Type}

/-- The result, when there is one. -/
def isOk : Outcome ε α → Bool
  | .ok _ => true
  | _ => false

end Outcome

/-- A program over the state `σ` with errors `ε`. -/
def Prog (σ ε α : Type) : Type := σ → Outcome ε α × σ

section

variable {σ ε α β : Type}

/-- Run the first program and, if it gave a result, the next one. -/
def Prog.bind (m : Prog σ ε α) (k : α → Prog σ ε β) : Prog σ ε β := fun s =>
  match m s with
  | (.ok a, s') => k a s'
  | (.err e, s') => (.err e, s')
  | (.crash, s') => (.crash, s')

instance : Monad (Prog σ ε) where
  pure a := fun s => (.ok a, s)
  bind := Prog.bind

/-- The current state. -/
def get : Prog σ ε σ := fun s => (.ok s, s)

/-- Change the state. -/
def modify (f : σ → σ) : Prog σ ε Unit := fun s => (.ok (), f s)

/-- Report an error. -/
def fail (e : ε) : Prog σ ε α := fun s => (.err e, s)

/-- Lose the process. -/
def crash : Prog σ ε α := fun s => (.crash, s)

/-- Report the error of an `Except` value, or return its result. -/
def lift : Except ε α → Prog σ ε α
  | .ok a => pure a
  | .error e => fail e

/-- Report `e` unless the condition holds. -/
def ensure (b : Bool) (e : ε) : Prog σ ε Unit :=
  if b then pure () else fail e

/-- Run the handler on a reported error; a crash is final. -/
def orElse (m : Prog σ ε α) (h : ε → Prog σ ε α) : Prog σ ε α := fun s =>
  match m s with
  | (.err e, s') => h e s'
  | r => r

/-- The same program with its errors renamed. -/
def mapErr {ε' : Type} (f : ε → ε') (m : Prog σ ε α) : Prog σ ε' α := fun s =>
  match m s with
  | (.ok a, s') => (.ok a, s')
  | (.err e, s') => (.err (f e), s')
  | (.crash, s') => (.crash, s')

/-- Run a program and drop the error it reports. -/
def ignore (m : Prog σ ε Unit) : Prog σ ε Unit := orElse m fun _ => pure ()

/-! ## Equations -/

@[simp] theorem pure_apply (a : α) (s : σ) : (pure a : Prog σ ε α) s = (.ok a, s) := rfl

@[simp] theorem get_apply (s : σ) : (get : Prog σ ε σ) s = (.ok s, s) := rfl

@[simp] theorem modify_apply (f : σ → σ) (s : σ) : (modify f : Prog σ ε Unit) s = (.ok (), f s) := rfl

@[simp] theorem fail_apply (e : ε) (s : σ) : (fail e : Prog σ ε α) s = (.err e, s) := rfl

@[simp] theorem crash_apply (s : σ) : (crash : Prog σ ε α) s = (.crash, s) := rfl

@[simp] theorem lift_ok (a : α) (s : σ) : (lift (.ok a) : Prog σ ε α) s = (.ok a, s) := rfl

@[simp] theorem lift_error (e : ε) (s : σ) : (lift (.error e) : Prog σ ε α) s = (.err e, s) := rfl

theorem bind_apply (m : Prog σ ε α) (k : α → Prog σ ε β) (s : σ) :
    (m >>= k) s = match m s with
      | (.ok a, s') => k a s'
      | (.err e, s') => (.err e, s')
      | (.crash, s') => (.crash, s') := rfl

theorem bind_ok {m : Prog σ ε α} {k : α → Prog σ ε β} {s s' : σ} {a : α} (h : m s = (.ok a, s')) :
    (m >>= k) s = k a s' := by rw [bind_apply, h]

theorem bind_err {m : Prog σ ε α} {k : α → Prog σ ε β} {s s' : σ} {e : ε} (h : m s = (.err e, s')) :
    (m >>= k) s = (.err e, s') := by rw [bind_apply, h]

theorem bind_crash {m : Prog σ ε α} {k : α → Prog σ ε β} {s s' : σ} (h : m s = (.crash, s')) :
    (m >>= k) s = (.crash, s') := by rw [bind_apply, h]

@[simp] theorem ensure_apply (b : Bool) (e : ε) (s : σ) :
    (ensure b e : Prog σ ε Unit) s = if b then (.ok (), s) else (.err e, s) := by
  unfold ensure
  split <;> rfl

theorem ensure_state (b : Bool) (e : ε) (s : σ) : ((ensure b e : Prog σ ε Unit) s).2 = s := by
  rw [ensure_apply]
  split <;> rfl

theorem bind_bind {γ : Type} (m : Prog σ ε α) (k : α → Prog σ ε β) (k' : β → Prog σ ε γ) :
    ((m >>= k) >>= k') = m >>= fun a => k a >>= k' := by
  funext s
  rw [bind_apply, bind_apply, bind_apply]
  match m s with
  | (.ok _, _) => rfl
  | (.err _, _) => rfl
  | (.crash, _) => rfl

theorem ensure_bind_true {c : Bool} {x : ε} {k : Unit → Prog σ ε β} {w : σ} (hc : c = true) :
    (ensure c x >>= k) w = k () w := by
  subst hc
  rfl

theorem ensure_bind_false {c : Bool} {x : ε} {k : Unit → Prog σ ε β} {w : σ} (hc : c = false) :
    (ensure c x >>= k) w = (.err x, w) := by
  subst hc
  rfl

theorem orElse_ok {m : Prog σ ε α} {x : ε → Prog σ ε α} {w w' : σ} {a : α} (h : m w = (.ok a, w')) :
    orElse m x w = (.ok a, w') := by
  unfold orElse
  rw [h]

/-- A check behind a program leaves the state to it. -/
theorem bind_check_state {m : Prog σ ε Unit} {k : σ → Prog σ ε Unit} (hk : ∀ s, (k s s).2 = s) (s : σ) :
    ((m >>= fun _ => get >>= k) s).2 = (m s).2 := by
  rw [bind_apply]
  match m s with
  | (.ok _, s') => exact hk s'
  | (.err _, _) => rfl
  | (.crash, _) => rfl

/-- A run whose outcome is known, with the state it reached. -/
theorem run_eq {r : Outcome ε α × σ} {o : Outcome ε α} (h : r.1 = o) : r = (o, r.2) := by
  rw [← h]

/-- A sequence that gave a result: the first program gave one, and the rest ran from there. -/
theorem bind_eq_ok {m : Prog σ ε α} {k : α → Prog σ ε β} {s s' : σ} {b : β}
    (h : (m >>= k) s = (.ok b, s')) : ∃ a s₁, m s = (.ok a, s₁) ∧ k a s₁ = (.ok b, s') := by
  rw [bind_apply] at h
  split at h
  · next a s₁ hm => exact ⟨a, s₁, hm, h⟩
  · cases h
  · cases h

/-- A check in front of a program that gave a result was passed. -/
theorem ensure_bind_eq_ok {c : Bool} {e : ε} {k : Unit → Prog σ ε β} {s s' : σ} {b : β}
    (h : (ensure c e >>= k) s = (.ok b, s')) : c = true ∧ k () s = (.ok b, s') := by
  cases c with
  | true => exact ⟨rfl, h⟩
  | false => cases h

theorem lift_bind_eq_ok {x : Except ε α} {k : α → Prog σ ε β} {s s' : σ} {b : β}
    (h : (lift x >>= k) s = (.ok b, s')) : ∃ a, x = .ok a ∧ k a s = (.ok b, s') := by
  cases x with
  | error e => cases h
  | ok a => exact ⟨a, rfl, h⟩

/-! ## Computations without a state -/

@[simp] theorem ok_bind (a : α) (f : α → Except ε β) : (Except.ok a >>= f) = f a := rfl

@[simp] theorem error_bind (e : ε) (f : α → Except ε β) : (Except.error e >>= f) = .error e := rfl

theorem except_bind_ok {x : Except ε α} {f : α → Except ε β} {b : β} (h : (x >>= f) = .ok b) :
    ∃ a, x = .ok a ∧ f a = .ok b := by
  cases x with
  | error e => cases h
  | ok a => exact ⟨a, rfl, h⟩

end

end Faulty
