import Mathlib.Data.List.TakeWhile
import Mathlib.Logic.Function.Basic

/-!
# Linked lists over addresses

`Linked next a l`: following `next` from the node `a` meets exactly the addresses
`l` and then ends.  `walk` follows the links while the next address passes a
test, so from any address it may have reached it stops at the last one that
passes (`walk_eq_lastOf`); `link` splices a fresh address in behind another
(`Linked.link`).
-/

namespace Links

variable {α : Type}

/-- The addresses behind `a`, in order. -/
def Linked (next : α → Option α) : α → List α → Prop
  | a, [] => next a = none
  | a, b :: l => next a = some b ∧ Linked next b l

/-- Follow the links while the next address passes the test. -/
def walk (next : α → Option α) (go : α → Bool) : Nat → α → α
  | 0, a => a
  | fuel + 1, a =>
    match next a with
    | none => a
    | some b => if go b then walk next go fuel b else a

/-- All addresses behind `a`. -/
def follow (next : α → Option α) : Nat → α → List α
  | 0, _ => []
  | fuel + 1, a =>
    match next a with
    | none => []
    | some b => b :: follow next fuel b

/-- Put `new` behind `u`: `new` takes over the link of `u`, then `u` points to `new`. -/
def link [DecidableEq α] (next : α → Option α) (u new : α) : α → Option α :=
  Function.update (Function.update next new (next u)) u (some new)

/-- The last of `a` and the addresses behind it that pass the test without a gap. -/
def lastOf (go : α → Bool) (a : α) (l : List α) : α := (a :: l.takeWhile go).getLast (List.cons_ne_nil _ _)

variable {next : α → Option α} {go : α → Bool} {a : α} {l : List α}

theorem lastOf_cons_of_pos {b : α} (h : go b = true) : lastOf go a (b :: l) = lastOf go b l := by
  simp [lastOf, h]

theorem lastOf_cons_of_neg {b : α} (h : go b = false) : lastOf go a (b :: l) = a := by
  simp [lastOf, h]

theorem lastOf_mem : lastOf go a l ∈ a :: l.takeWhile go := List.getLast_mem _

theorem Linked.congr {g : α → Option α} (h : Linked next a l) (heq : ∀ c ∈ a :: l, g c = next c) :
    Linked g a l := by
  induction l generalizing a with
  | nil => exact (heq a (by simp)).trans h
  | cons b l ih =>
    exact ⟨(heq a (by simp)).trans h.1, ih h.2 fun c hc => heq c (List.mem_cons_of_mem a hc)⟩

theorem follow_eq (h : Linked next a l) {fuel : Nat} (hfuel : l.length < fuel) : follow next fuel a = l := by
  induction l generalizing a fuel with
  | nil =>
    obtain ⟨fuel, rfl⟩ : ∃ n, fuel = n + 1 := ⟨fuel - 1, by omega⟩
    rw [follow, show next a = none from h]
  | cons b l ih =>
    rw [List.length_cons] at hfuel
    obtain ⟨fuel, rfl⟩ : ∃ n, fuel = n + 1 := ⟨fuel - 1, by omega⟩
    rw [follow, h.1]
    simp only [ih h.2 (show l.length < fuel by omega)]

theorem walk_eq (h : Linked next a l) {fuel : Nat} (hfuel : l.length ≤ fuel) :
    walk next go fuel a = lastOf go a l := by
  induction l generalizing a fuel with
  | nil =>
    cases fuel with
    | zero => rfl
    | succ fuel =>
      rw [walk, show next a = none from h]
      rfl
  | cons b l ih =>
    rw [List.length_cons] at hfuel
    obtain ⟨fuel, rfl⟩ : ∃ n, fuel = n + 1 := ⟨fuel - 1, by omega⟩
    rw [walk, h.1]
    cases hgo : go b with
    | true => simp only [hgo, if_true, ih h.2 (show l.length ≤ fuel by omega), lastOf_cons_of_pos hgo]
    | false => simp [hgo, lastOf_cons_of_neg hgo]

/-- Wherever the walk is taken up again before its end, it ends at the same address. -/
theorem walk_eq_lastOf {h : α} (hl : Linked next h l) {fuel : Nat} (hfuel : l.length ≤ fuel)
    (ha : a ∈ h :: l.takeWhile go) : walk next go fuel a = lastOf go h l := by
  induction l generalizing h with
  | nil =>
    have hah : a = h := by simpa using ha
    rw [hah]
    exact walk_eq hl hfuel
  | cons b l ih =>
    rw [List.length_cons] at hfuel
    rcases List.mem_cons.mp ha with rfl | ha
    · exact walk_eq hl (by simpa using hfuel)
    · cases hgo : go b with
      | true =>
        rw [List.takeWhile_cons, if_pos hgo] at ha
        rw [lastOf_cons_of_pos hgo]
        exact ih hl.2 (by omega) ha
      | false =>
        rw [List.takeWhile_cons, if_neg (by simp [hgo])] at ha
        cases ha

/-- Behind the last address that passes stands the first that does not. -/
theorem next_lastOf (h : Linked next a l) : next (lastOf go a l) = (l.dropWhile go).head? := by
  induction l generalizing a with
  | nil => exact h
  | cons b l ih =>
    cases hgo : go b with
    | true =>
      rw [lastOf_cons_of_pos hgo, List.dropWhile_cons, if_pos hgo]
      exact ih h.2
    | false =>
      rw [lastOf_cons_of_neg hgo, List.dropWhile_cons, if_neg (by simp [hgo])]
      exact h.1

theorem Linked.next_head (h : Linked next a l) : next a = l.head? := by
  cases l with
  | nil => exact h
  | cons b l => exact h.1

/-- A link within an ordered list leads on. -/
theorem Linked.next_of_mem {R : α → α → Prop} (h : Linked next a l) (hp : l.Pairwise R) {b c : α} (hb : b ∈ l)
    (hc : next b = some c) : R b c := by
  induction l generalizing a with
  | nil => cases hb
  | cons d l ih =>
    obtain ⟨hd, hl⟩ := List.pairwise_cons.mp hp
    rcases List.mem_cons.mp hb with rfl | hb
    · rw [h.2.next_head] at hc
      exact hd c (List.mem_of_head? hc)
    · exact ih h.2 hl hb

variable [DecidableEq α]

/-- Splicing a fresh address in behind the last one that passes. -/
theorem Linked.link {new : α} (h : Linked next a l) (hnodup : (a :: l).Nodup) (hnew : new ∉ a :: l) :
    Linked (link next (lastOf go a l) new) a (l.takeWhile go ++ new :: l.dropWhile go) := by
  have hne : ∀ c ∈ a :: l, c ≠ new := fun c hc hcn => hnew (hcn ▸ hc)
  induction l generalizing a with
  | nil =>
    have han : a ≠ new := hne a (by simp)
    have hnone : next a = none := h
    simp [Linked, link, lastOf, Function.update_of_ne han.symm, hnone]
  | cons b l ih =>
    obtain ⟨ha, hbl⟩ := List.nodup_cons.mp hnodup
    have han : a ≠ new := hne a (by simp)
    cases hgo : go b with
    | true =>
      have hu : lastOf go b l ∈ b :: l := by
        rcases List.mem_cons.mp (lastOf_mem : lastOf go b l ∈ b :: l.takeWhile go) with hb | hl
        · simp [hb]
        · exact List.mem_cons_of_mem b (List.takeWhile_subset _ hl)
      have hau : a ≠ lastOf go b l := fun heq => ha (heq ▸ hu)
      rw [lastOf_cons_of_pos hgo, List.takeWhile_cons, List.dropWhile_cons, if_pos hgo, if_pos hgo]
      refine ⟨?_, ih h.2 hbl (fun hc => hnew (List.mem_cons_of_mem a hc))
        fun c hc => hne c (List.mem_cons_of_mem a hc)⟩
      rw [link, Function.update_of_ne hau, Function.update_of_ne han]
      exact h.1
    | false =>
      rw [lastOf_cons_of_neg hgo, List.takeWhile_cons, List.dropWhile_cons, if_neg (by simp [hgo]),
        if_neg (by simp [hgo])]
      refine ⟨by simp [link], by simp [link, Function.update_of_ne han.symm, h.1], ?_⟩
      refine h.2.congr fun c hc => ?_
      have hca : c ≠ a := fun heq => ha (heq ▸ hc)
      rw [link, Function.update_of_ne hca, Function.update_of_ne (hne c (List.mem_cons_of_mem a hc))]

end Links
