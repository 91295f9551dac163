import Kvdb.Lib.Prog

/-!
# How a run ends

`Ends Q E C r` says of the end `r` of a run: a result and its state satisfy `Q`,
the state at a reported error `E`, the state at which the process was lost `C`.
There is one rule for each way to build a program, so that

    (∀ s, P s → Ends Q E C (m s))

is a triple with a postcondition for each outcome; its facts about the start
state stay in the context of the proof and need no framing.

`Ends.bind` threads the middle condition through a sequence, `Ends.orElse` gives
an error handler the error condition of the program it guards.
-/

namespace Faulty

variable {σ ε α β : Type}

def Ends (Q : α → σ → Prop) (E C : σ → Prop) (r : Outcome ε α × σ) : Prop :=
  match r with
  | (.ok a, s) => Q a s
  | (.err _, s) => E s
  | (.crash, s) => C s

section

variable {Q Q' : α → σ → Prop} {E E' C C' : σ → Prop} {r : Outcome ε α × σ} {s s' : σ}

theorem Ends.ok {a : α} (h : Ends Q E C r) (hr : r = (.ok a, s)) : Q a s := by
  subst hr
  exact h

theorem Ends.err {e : ε} (h : Ends Q E C r) (hr : r = (.err e, s)) : E s := by
  subst hr
  exact h

theorem Ends.crash (h : Ends Q E C r) (hr : r = (.crash, s)) : C s := by
  subst hr
  exact h

theorem Ends.mono (h : Ends Q E C r) (hq : ∀ a s, Q a s → Q' a s) (he : ∀ s, E s → E' s)
    (hc : ∀ s, C s → C' s) : Ends Q' E' C' r := by
  match r, h with
  | (.ok a, s), h => exact hq a s h
  | (.err _, s), h => exact he s h
  | (.crash, s), h => exact hc s h

theorem Ends.imp (h : Ends Q E C r) (hq : ∀ a s, Q a s → Q' a s) : Ends Q' E C r :=
  h.mono hq (fun _ h => h) fun _ h => h

/-- Two descriptions of the same run hold together. -/
theorem Ends.and (h : Ends Q E C r) (h' : Ends Q' E' C' r) :
    Ends (fun a s => Q a s ∧ Q' a s) (fun s => E s ∧ E' s) (fun s => C s ∧ C' s) r := by
  match r, h, h' with
  | (.ok _, _), h, h' => exact ⟨h, h'⟩
  | (.err _, _), h, h' => exact ⟨h, h'⟩
  | (.crash, _), h, h' => exact ⟨h, h'⟩

/-- A description of all states is one of the last state. -/
theorem ends_of_state {I : σ → Prop} (h : I r.2) : Ends (fun _ : α => I) I I r := by
  match r, h with
  | (.ok _, _), h => exact h
  | (.err _, _), h => exact h
  | (.crash, _), h => exact h

theorem Ends.state {I : σ → Prop} (h : Ends (fun _ : α => I) I I r) : I r.2 := by
  match r, h with
  | (.ok _, _), h => exact h
  | (.err _, _), h => exact h
  | (.crash, _), h => exact h

theorem ends_pure {a : α} (h : Q a s) : Ends Q E C ((pure a : Prog σ ε α) s) := h

theorem ends_lift {x : Except ε α} (hok : ∀ a, x = .ok a → Q a s) (herr : ∀ e, x = .error e → E s) :
    Ends Q E C ((lift x : Prog σ ε α) s) := by
  cases x with
  | ok a => exact hok a rfl
  | error e => exact herr e rfl

end

variable {m : Prog σ ε α} {k : α → Prog σ ε β} {E C : σ → Prop} {s : σ}

theorem Ends.bind {R : α → σ → Prop} {Q : β → σ → Prop} (hm : Ends R E C (m s))
    (hk : ∀ a s', R a s' → Ends Q E C (k a s')) : Ends Q E C ((m >>= k) s) := by
  rw [bind_apply]
  match h : m s, hm with
  | (.ok a, s'), hm => exact hk a s' hm
  | (.err _, _), hm => exact hm
  | (.crash, _), hm => exact hm

theorem ends_get {k : σ → Prog σ ε β} {Q : β → σ → Prop} (h : Ends Q E C (k s s)) :
    Ends Q E C ((get >>= k) s) := h

theorem ends_modify {f : σ → σ} {Q : Unit → σ → Prop} (h : Q () (f s)) :
    Ends Q E C ((modify f : Prog σ ε Unit) s) := h

theorem ends_ensure {b : Bool} {e : ε} {Q : Unit → σ → Prop} (hok : b = true → Q () s)
    (herr : b = false → E s) : Ends Q E C ((ensure b e : Prog σ ε Unit) s) := by
  rw [ensure_apply]
  cases b with
  | true => exact hok rfl
  | false => exact herr rfl

/-- A check in front of a program. -/
theorem ends_guard {b : Bool} {e : ε} {k : Unit → Prog σ ε β} {Q : β → σ → Prop} (herr : b = false → E s)
    (hk : b = true → Ends Q E C (k () s)) : Ends Q E C ((ensure b e >>= k) s) :=
  Ends.bind (R := fun _ s' => s' = s ∧ b = true) (ends_ensure (fun hb => ⟨rfl, hb⟩) herr)
    fun _ _ ⟨hs, hb⟩ => hs ▸ hk hb

/-- A computation without effects in front of a program. -/
theorem ends_lift_bind {x : Except ε α} {Q : β → σ → Prop} (herr : ∀ e, x = .error e → E s)
    (hk : ∀ a, x = .ok a → Ends Q E C (k a s)) : Ends Q E C ((lift x >>= k) s) :=
  Ends.bind (R := fun a s' => s' = s ∧ x = .ok a) (ends_lift (fun _ ha => ⟨rfl, ha⟩) herr)
    fun a _ ⟨hs, ha⟩ => hs ▸ hk a ha

theorem ends_modify_bind {f : σ → σ} {k : Unit → Prog σ ε β} {Q : β → σ → Prop}
    (hk : Ends Q E C (k () (f s))) : Ends Q E C ((modify f >>= k) s) := hk

theorem Ends.orElse {h : ε → Prog σ ε α} {Q : α → σ → Prop} {R : σ → Prop} (hm : Ends Q R C (m s))
    (hh : ∀ e s', R s' → Ends Q E C (h e s')) : Ends Q E C (orElse m h s) := by
  unfold Faulty.orElse
  match hr : m s, hm with
  | (.ok _, _), hm => exact hm
  | (.err e, s'), hm => exact hh e s' hm
  | (.crash, _), hm => exact hm

/-- A dropped error is as good as none. -/
theorem Ends.ignore {m : Prog σ ε Unit} {Q : Unit → σ → Prop} (hm : Ends Q (Q ()) C (m s)) :
    Ends Q E C (ignore m s) :=
  Ends.orElse hm fun _ _ h => h

end Faulty
