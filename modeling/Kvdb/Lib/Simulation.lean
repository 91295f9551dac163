import Kvdb.Lib.Prog

/-!
# Simulation of programs that can fail

Two programs over related states, one of them closer to the machine.  `Simulates S m m'`
says how a run of the concrete program `m` compares with one of the abstract program
`m'` from a related state:

* both end in the same way and in related states, or
* `m` stops with an error that `m'` does not have.  What is left then is `Bad`, a property
  that the abstract programs never lose, so it can be read off the end of a run.

A process lost in `m` alone counts as a stop where `Lossy` holds.

    simulates_bind, simulates_get, simulates_orElse, …      one rule for each way to build a program
    Simulates.of_ok                                         a result of `m` is a result of `m'`
    Simulates.of_good                                       a run of `m'` that is not bad is a run of `m`
-/

namespace Faulty

/-- What is compared, and what a stop of the concrete program leaves.  `View` is the part of the
relation that a program may look at; every abstract state has a view. -/
structure Sim (σ σ' : Type) where
  Rel : σ → σ' → Prop
  View : σ → σ' → Prop
  view : ∀ {s s'}, Rel s s' → View s s'
  full : ∀ s', ∃ s, View s s'
  Calm : σ → Prop
  Lossy : Prop
  Bad : σ' → Prop

section

variable {σ σ' ε α β : Type} {S : Sim σ σ'}

/-- The concrete program ended without a result. -/
def Sim.Stopped (S : Sim σ σ') (r : Outcome ε α × σ) : Prop :=
  ((∃ e, r.1 = .err e) ∧ S.Calm r.2) ∨ (r.1 = .crash ∧ S.Lossy)

/-- How the ends of two runs compare. -/
def Sim.Ends (S : Sim σ σ') (r : Outcome ε α × σ) (r' : Outcome ε α × σ') : Prop :=
  (r.1 = r'.1 ∧ S.Rel r.2 r'.2) ∨ (S.Stopped r ∧ S.Bad r'.2)

structure Simulates (S : Sim σ σ') (m : Prog σ ε α) (m' : Prog σ' ε α) : Prop where
  runs : ∀ s s', S.Rel s s' → S.Ends (m s) (m' s')
  keeps : ∀ s', S.Bad s' → S.Bad (m' s').2

/-- A result of the concrete program is one of the abstract program. -/
theorem Simulates.of_ok {m : Prog σ ε α} {m' : Prog σ' ε α} (h : Simulates S m m') {s t : σ} {s' : σ'} {a : α}
    (hs : S.Rel s s') (hrun : m s = (.ok a, t)) : ∃ t', m' s' = (.ok a, t') ∧ S.Rel t t' := by
  rcases h.runs s s' hs with ⟨hout, hrel⟩ | ⟨hstop, -⟩
  · rw [hrun] at hout hrel
    exact ⟨(m' s').2, run_eq hout.symm, hrel⟩
  · rcases hstop with ⟨⟨e, he⟩, -⟩ | ⟨hc, -⟩
    · rw [hrun] at he
      cases he
    · rw [hrun] at hc
      cases hc

/-- Where the abstract program fails, the concrete one does. -/
theorem Simulates.of_err {m : Prog σ ε α} {m' : Prog σ' ε α} (h : Simulates S m m') (hl : ¬ S.Lossy)
    {s : σ} {s' : σ'}
    (hs : S.Rel s s') (hrun : ∃ e t', m' s' = (.err e, t')) : ∃ e t, m s = (.err e, t) := by
  obtain ⟨e, t', hrun⟩ := hrun
  rcases h.runs s s' hs with ⟨hout, -⟩ | ⟨⟨⟨e', he⟩, -⟩ | ⟨-, hlost⟩, -⟩
  · rw [hrun] at hout
    exact ⟨e, _, run_eq hout⟩
  · exact ⟨e', _, run_eq he⟩
  · exact absurd hlost hl

/-- A run of the abstract program that does not end badly is one of the concrete program. -/
theorem Simulates.of_good {m : Prog σ ε α} {m' : Prog σ' ε α} (h : Simulates S m m') {s : σ} {s' t' : σ'}
    {o : Outcome ε α} (hs : S.Rel s s') (hrun : m' s' = (o, t')) (hgood : ¬ S.Bad t') :
    ∃ t, m s = (o, t) ∧ S.Rel t t' := by
  rcases h.runs s s' hs with ⟨hout, hrel⟩ | ⟨-, hbad⟩
  · rw [hrun] at hout hrel
    exact ⟨(m s).2, run_eq hout, hrel⟩
  · rw [hrun] at hbad
    exact absurd hbad hgood

/-! ## Rules -/

theorem simulates_pure (a : α) : Simulates S (pure a : Prog σ ε α) (pure a) where
  runs _ _ h := .inl ⟨rfl, h⟩
  keeps _ h := h

theorem bad_bind {m' : Prog σ' ε α} {k' : α → Prog σ' ε β} {s' : σ'} (h : S.Bad (m' s').2)
    (hk : ∀ a s, S.Bad s → S.Bad (k' a s).2) : S.Bad ((m' >>= k') s').2 := by
  rw [bind_apply]
  generalize m' s' = r' at h
  obtain ⟨o', t'⟩ := r'
  cases o' with
  | ok a => exact hk a t' h
  | err e => exact h
  | crash => exact h

theorem simulates_bind {m : Prog σ ε α} {m' : Prog σ' ε α} {k : α → Prog σ ε β} {k' : α → Prog σ' ε β}
    (hm : Simulates S m m') (hk : ∀ a, Simulates S (k a) (k' a)) : Simulates S (m >>= k) (m' >>= k') where
  runs s s' h := by
    rcases hm.runs s s' h with ⟨hout, hrel⟩ | ⟨hstop, hbad⟩
    · rw [bind_apply, bind_apply]
      generalize m s = r at hout hrel
      generalize m' s' = r' at hout hrel
      obtain ⟨o, t⟩ := r
      obtain ⟨o', t'⟩ := r'
      cases hout
      cases o with
      | ok a => exact (hk a).runs t t' hrel
      | err e => exact .inl ⟨rfl, hrel⟩
      | crash => exact .inl ⟨rfl, hrel⟩
    · -- the concrete program has stopped, and the abstract one stays bad
      refine .inr ⟨?_, bad_bind hbad fun a => (hk a).keeps⟩
      rcases hstop with ⟨⟨e, he⟩, hcalm⟩ | ⟨hc, hlost⟩
      · rw [bind_err (run_eq he)]
        exact .inl ⟨⟨e, rfl⟩, hcalm⟩
      · rw [bind_crash (run_eq hc)]
        exact .inr ⟨rfl, hlost⟩
  keeps s' h := bad_bind (hm.keeps s' h) fun a => (hk a).keeps

/-- A program that reads the state first. -/
theorem simulates_get {k : σ → Prog σ ε α} {k' : σ' → Prog σ' ε α}
    (hk : ∀ s s', S.View s s' → Simulates S (k s) (k' s')) : Simulates S (get >>= k) (get >>= k') where
  runs s s' h := (hk s s' (S.view h)).runs s s' h
  keeps s' h := by
    obtain ⟨s, hs⟩ := S.full s'
    exact (hk s s' hs).keeps s' h

theorem simulates_fail (e : ε) : Simulates S (fail e : Prog σ ε α) (fail e) where
  runs _ _ h := .inl ⟨rfl, h⟩
  keeps _ h := h

theorem simulates_lift (x : Except ε α) : Simulates S (lift x : Prog σ ε α) (lift x) := by
  cases x with
  | ok a => exact simulates_pure a
  | error e => exact simulates_fail e

theorem simulates_ensure (c : Bool) (e : ε) : Simulates S (ensure c e : Prog σ ε Unit) (ensure c e) := by
  cases c with
  | true => exact simulates_pure ()
  | false => exact simulates_fail e

theorem simulates_ite {c : Prop} [Decidable c] {m₁ m₂ : Prog σ ε α} {m₁' m₂' : Prog σ' ε α}
    (h₁ : Simulates S m₁ m₁') (h₂ : Simulates S m₂ m₂') :
    Simulates S (if c then m₁ else m₂) (if c then m₁' else m₂') := by
  by_cases hc : c
  · rw [if_pos hc, if_pos hc]
    exact h₁
  · rw [if_neg hc, if_neg hc]
    exact h₂

theorem bad_orElse {m' : Prog σ' ε α} {k' : ε → Prog σ' ε α} {s' : σ'} (h : S.Bad (m' s').2)
    (hk : ∀ e s, S.Bad s → S.Bad (k' e s).2) : S.Bad (orElse m' k' s').2 := by
  unfold orElse
  generalize m' s' = r' at h
  obtain ⟨o', t'⟩ := r'
  cases o' with
  | ok a => exact h
  | err e => exact hk e t' h
  | crash => exact h

/-- A handler that never gives a result; it also runs after a stop. -/
theorem simulates_orElse {m : Prog σ ε α} {m' : Prog σ' ε α} {k : ε → Prog σ ε α}
    {k' : ε → Prog σ' ε α} (hm : Simulates S m m') (hk : ∀ e, Simulates S (k e) (k' e))
    (hstop : ∀ e s, S.Calm s → S.Stopped (k e s)) :
    Simulates S (orElse m k) (orElse m' k') where
  runs s s' h := by
    rcases hm.runs s s' h with ⟨hout, hrel⟩ | ⟨hr, hbad⟩
    · unfold orElse
      generalize m s = r at hout hrel
      generalize m' s' = r' at hout hrel
      obtain ⟨o, t⟩ := r
      obtain ⟨o', t'⟩ := r'
      cases hout
      cases o with
      | ok a => exact .inl ⟨rfl, hrel⟩
      | err e => exact (hk e).runs t t' hrel
      | crash => exact .inl ⟨rfl, hrel⟩
    · refine .inr ⟨?_, bad_orElse hbad fun e => (hk e).keeps⟩
      unfold orElse
      rcases hr with ⟨⟨e, he⟩, hcalm⟩ | ⟨hc, hlost⟩
      · rw [run_eq he]
        exact hstop e _ hcalm
      · rw [run_eq hc]
        exact .inr ⟨rfl, hlost⟩
  keeps s' h := bad_orElse (hm.keeps s' h) fun e => (hk e).keeps

/-- An operation that never stops in the concrete program alone. -/
structure Exact (S : Sim σ σ') (m : Prog σ ε α) (m' : Prog σ' ε α) : Prop where
  runs : ∀ s s', S.Rel s s' → (m s).1 = (m' s').1 ∧ S.Rel (m s).2 (m' s').2
  keeps : ∀ s', S.Bad s' → S.Bad (m' s').2

theorem Exact.simulates {m : Prog σ ε α} {m' : Prog σ' ε α} (h : Exact S m m') : Simulates S m m' where
  runs s s' hs := .inl (h.runs s s' hs)
  keeps := h.keeps

theorem Exact.ignore {m : Prog σ ε Unit} {m' : Prog σ' ε Unit} (hm : Exact S m m') :
    Exact S (Faulty.ignore m) (Faulty.ignore m') where
  runs s s' h := by
    have hends := hm.runs s s' h
    unfold Faulty.ignore orElse
    generalize m s = r at hends
    generalize m' s' = r' at hends
    obtain ⟨o, t⟩ := r
    obtain ⟨o', t'⟩ := r'
    obtain ⟨rfl, hrel⟩ := hends
    cases o with
    | ok a => exact ⟨rfl, hrel⟩
    | err e => exact ⟨rfl, hrel⟩
    | crash => exact ⟨rfl, hrel⟩
  keeps s' h := by
    have hbad := hm.keeps s' h
    unfold Faulty.ignore orElse
    generalize m' s' = r' at hbad
    obtain ⟨o', t'⟩ := r'
    cases o' with
    | ok a => exact hbad
    | err e => exact hbad
    | crash => exact hbad

end

end Faulty
