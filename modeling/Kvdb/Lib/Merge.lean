import Mathlib.Data.List.Basic
import Mathlib.Data.List.Forall2

/-!
# Merging sorted cursors

`pop` takes the least head of several lists, `mergeAll` repeats it until all are
empty: the k-way merge that a heap of cursors computes.  For a comparison
`before` that is asymmetric and whose complement is transitive (a strict weak
order), the merge of sorted lists is sorted (`mergeAll_sorted`), and in any case
it has the elements of the lists (`mergeAll_perm`).

`Drains` leaves open which of several least heads is taken, and may stop early: what
was read is sorted (`Drains.sorted`) and a prefix of each list (`Drains.prefixes`).
-/

namespace KWay

variable {α : Type} (before : α → α → Bool)

/-- The least head and the cursors behind it. -/
def pop : List (List α) → Option (α × List (List α))
  | [] => none
  | [] :: ls => (pop ls).map fun p => (p.1, [] :: p.2)
  | (a :: l) :: ls =>
    match pop ls with
    | none => some (a, l :: ls)
    | some (b, rest) => if before b a then some (b, (a :: l) :: rest) else some (a, l :: ls)

def merge : Nat → List (List α) → List α
  | 0, _ => []
  | n + 1, ls =>
    match pop before ls with
    | none => []
    | some (a, rest) => a :: merge n rest

/-- All elements; each round takes one. -/
def mergeAll (ls : List (List α)) : List α := merge before ls.flatten.length ls

variable {before}

theorem pop_eq_none {ls : List (List α)} (h : pop before ls = none) : ls.flatten = [] := by
  induction ls with
  | nil => rfl
  | cons l ls ih =>
    cases l with
    | nil =>
      simp only [pop, Option.map_eq_none_iff] at h
      exact ih h
    | cons a l =>
      simp only [pop] at h
      split at h
      · cases h
      · split at h
        · cases h
        · cases h

theorem pop_perm {ls rest : List (List α)} {a : α} (h : pop before ls = some (a, rest)) :
    (a :: rest.flatten).Perm ls.flatten := by
  induction ls generalizing a rest with
  | nil => cases h
  | cons l ls ih =>
    cases l with
    | nil =>
      simp only [pop, Option.map_eq_some_iff] at h
      obtain ⟨p, hp, heq⟩ := h
      cases heq
      have hperm := ih hp
      exact hperm
    | cons b l =>
      simp only [pop] at h
      split at h
      · cases h
        exact List.Perm.refl _
      · next c rest' hp =>
        split at h
        · cases h
          have hperm := (ih hp).append_left (b :: l)
          exact List.perm_middle.symm.trans hperm
        · cases h
          exact List.Perm.refl _

theorem merge_perm {n : Nat} {ls : List (List α)} (hn : ls.flatten.length ≤ n) :
    (merge before n ls).Perm ls.flatten := by
  induction n generalizing ls with
  | zero =>
    have h0 : ls.flatten = [] := List.eq_nil_of_length_eq_zero (by omega)
    rw [h0]
    exact List.Perm.refl _
  | succ n ih =>
    unfold merge
    split
    · next hp => rw [pop_eq_none hp]
    · next a rest hp =>
      have hperm := pop_perm hp
      have hlen := hperm.length_eq
      rw [List.length_cons] at hlen
      exact ((ih (by omega)).cons a).trans hperm

theorem mergeAll_perm (ls : List (List α)) : (mergeAll before ls).Perm ls.flatten :=
  merge_perm (Nat.le_refl _)

section Sorted

variable (hasymm : ∀ a b, before a b = true → before b a = false)
  (htrans : ∀ a b c, before b a = false → before c b = false → before c a = false)

/-- No later element comes before an earlier one. -/
def Sorted (before : α → α → Bool) (l : List α) : Prop := l.Pairwise fun a b => before b a = false

include hasymm htrans in
theorem pop_sorted {ls rest : List (List α)} {a : α} (hls : ∀ l ∈ ls, Sorted before l)
    (h : pop before ls = some (a, rest)) :
    (∀ l ∈ rest, Sorted before l) ∧ ∀ b ∈ rest.flatten, before b a = false := by
  induction ls generalizing a rest with
  | nil => cases h
  | cons l ls ih =>
    have hl := hls l (by simp)
    have hls' : ∀ l ∈ ls, Sorted before l := fun l hl => hls l (by simp [hl])
    cases l with
    | nil =>
      simp only [pop, Option.map_eq_some_iff] at h
      obtain ⟨p, hp, heq⟩ := h
      cases heq
      obtain ⟨h1, h2⟩ := ih hls' hp
      refine ⟨fun l hl => ?_, h2⟩
      rcases List.mem_cons.mp hl with rfl | hl
      · exact List.Pairwise.nil
      · exact h1 l hl
    | cons c l =>
      obtain ⟨hc, hl⟩ := List.pairwise_cons.mp hl
      have hown : ∀ l' ∈ l :: ls, Sorted before l' := by
        intro l' hl'
        rcases List.mem_cons.mp hl' with rfl | hl'
        · exact hl
        · exact hls' l' hl'
      simp only [pop] at h
      split at h
      · next hp =>
        cases h
        refine ⟨hown, fun b hb => ?_⟩
        rw [List.flatten_cons, pop_eq_none hp, List.append_nil] at hb
        exact hc b hb
      · next d rest' hp =>
        obtain ⟨h1, h2⟩ := ih hls' hp
        split at h
        · -- the head of another cursor comes first: it precedes this whole list
          next hbefore =>
          cases h
          refine ⟨fun l' hl' => ?_, fun b hb => ?_⟩
          · rcases List.mem_cons.mp hl' with rfl | hl'
            · exact List.pairwise_cons.mpr ⟨hc, hl⟩
            · exact h1 l' hl'
          · rcases List.mem_append.mp (List.flatten_cons ▸ hb) with hb | hb
            · have hda := hasymm _ _ hbefore
              rcases List.mem_cons.mp hb with rfl | hb
              · exact hda
              · exact htrans _ _ _ hda (hc b hb)
            · exact h2 b hb
        · next hbefore =>
          cases h
          have hda : before d a = false := by simpa using hbefore
          refine ⟨hown, fun b hb => ?_⟩
          rcases List.mem_append.mp (List.flatten_cons ▸ hb) with hb | hb
          · exact hc b hb
          · rcases List.mem_cons.mp ((pop_perm hp).mem_iff.mpr hb) with rfl | hb
            · exact hda
            · exact htrans _ _ _ hda (h2 b hb)

include hasymm htrans in
theorem merge_sorted {n : Nat} {ls : List (List α)} (hn : ls.flatten.length ≤ n)
    (hls : ∀ l ∈ ls, Sorted before l) : Sorted before (merge before n ls) := by
  induction n generalizing ls with
  | zero => exact List.Pairwise.nil
  | succ n ih =>
    unfold merge
    split
    · exact List.Pairwise.nil
    · next a rest hp =>
      obtain ⟨h1, h2⟩ := pop_sorted hasymm htrans hls hp
      have hlen := (pop_perm hp).length_eq
      rw [List.length_cons] at hlen
      have hle : rest.flatten.length ≤ n := by omega
      refine List.pairwise_cons.mpr ⟨fun b hb => ?_, ih hle h1⟩
      exact h2 b ((merge_perm hle).mem_iff.mp hb)

include hasymm htrans in
theorem mergeAll_sorted {ls : List (List α)} (hls : ∀ l ∈ ls, Sorted before l) :
    Sorted before (mergeAll before ls) :=
  merge_sorted hasymm htrans (Nat.le_refl _) hls

end Sorted

/-! ## Any order of equal heads -/

/-- `l` can be read off the lists, each time from one whose head no other head comes before, and
then `rest` is left. -/
inductive Drains (before : α → α → Bool) : List (List α) → List α → List (List α) → Prop
  | stop (ls : List (List α)) : Drains before ls [] ls
  | take {ls rest : List (List α)} {i : Nat} {a : α} {t l : List α} (hi : ls[i]? = some (a :: t))
      (hmin : ∀ (j : Nat) (b : α) (u : List α), ls[j]? = some (b :: u) → before b a = false)
      (h : Drains before (ls.set i t) l rest) : Drains before ls (a :: l) rest

theorem Drains.trans {ls mid rest : List (List α)} {l l' : List α} (h : Drains before ls l mid)
    (h' : Drains before mid l' rest) : Drains before ls (l ++ l') rest := by
  induction h with
  | stop ls => exact h'
  | take hi hmin _ ih => exact .take hi hmin (ih h')

theorem perm_set {ls : List (List α)} {i : Nat} {a : α} {t : List α} (hi : ls[i]? = some (a :: t)) :
    (a :: (ls.set i t).flatten).Perm ls.flatten := by
  induction ls generalizing i with
  | nil => cases hi
  | cons l ls ih =>
    cases i with
    | zero =>
      cases hi
      exact List.Perm.refl _
    | succ i =>
      rw [List.set_cons_succ, List.flatten_cons, List.flatten_cons]
      exact List.perm_middle.symm.trans ((ih hi).append_left l)

theorem Drains.perm {ls rest : List (List α)} {l : List α} (h : Drains before ls l rest) :
    (l ++ rest.flatten).Perm ls.flatten := by
  induction h with
  | stop ls => exact List.Perm.refl _
  | take hi _ _ ih => exact (ih.cons _).trans (perm_set hi)

theorem prefix_set {ls ps : List (List α)} {i : Nat} {a : α} {t : List α} (hi : ls[i]? = some (a :: t))
    (h : List.Forall₂ (· <+: ·) ps (ls.set i t)) :
    ∃ qs, List.Forall₂ (· <+: ·) qs ls ∧ (a :: ps.flatten).Perm qs.flatten := by
  induction ls generalizing i ps with
  | nil => cases hi
  | cons l ls ih =>
    cases i with
    | zero =>
      cases hi
      rw [List.set_cons_zero] at h
      obtain ⟨p, ps', hp, hps, rfl⟩ := List.forall₂_cons_right_iff.mp h
      refine ⟨(a :: p) :: ps', .cons ?_ hps, List.Perm.refl _⟩
      obtain ⟨s, rfl⟩ := hp
      exact ⟨s, rfl⟩
    | succ i =>
      rw [List.set_cons_succ] at h
      obtain ⟨p, ps', hp, hps, rfl⟩ := List.forall₂_cons_right_iff.mp h
      obtain ⟨qs, hqs, hperm⟩ := ih hi hps
      refine ⟨p :: qs, .cons hp hqs, ?_⟩
      rw [List.flatten_cons, List.flatten_cons]
      exact List.perm_middle.symm.trans (hperm.append_left p)

/-- What was read is a prefix of each list. -/
theorem Drains.prefixes {ls rest : List (List α)} {l : List α} (h : Drains before ls l rest) :
    ∃ ps, List.Forall₂ (· <+: ·) ps ls ∧ l.Perm ps.flatten := by
  induction h with
  | stop ls =>
    refine ⟨ls.map fun _ => [], ?_, ?_⟩
    · induction ls with
      | nil => exact .nil
      | cons l ls ih => exact .cons List.nil_prefix ih
    · have hnil : (ls.map fun _ => ([] : List α)).flatten = [] := by
        induction ls with
        | nil => rfl
        | cons l ls ih => exact ih
      rw [hnil]
  | take hi _ _ ih =>
    obtain ⟨ps, hps, hperm⟩ := ih
    obtain ⟨qs, hqs, hperm'⟩ := prefix_set hi hps
    exact ⟨qs, hqs, (hperm.cons _).trans hperm'⟩

theorem sorted_set {ls : List (List α)} {i : Nat} {a : α} {t : List α} (hi : ls[i]? = some (a :: t))
    (hls : ∀ l ∈ ls, Sorted before l) : ∀ l ∈ ls.set i t, Sorted before l := by
  intro l hl
  rcases List.mem_or_eq_of_mem_set hl with hl | rfl
  · exact hls l hl
  · exact (List.pairwise_cons.mp (hls _ (List.mem_of_getElem? hi))).2

/-- What is left of sorted lists is sorted. -/
theorem Drains.sorted_rest {ls rest : List (List α)} {l : List α} (h : Drains before ls l rest)
    (hls : ∀ l ∈ ls, Sorted before l) : ∀ l ∈ rest, Sorted before l := by
  induction h with
  | stop ls => exact hls
  | take hi _ _ ih => exact ih (sorted_set hi hls)

/-- The sorted list of some elements is unique when no two of them stand at one place. -/
theorem sorted_unique {l l' : List α} (hl : Sorted before l) (hl' : Sorted before l') (hperm : l.Perm l')
    (hsame : ∀ a ∈ l, ∀ b ∈ l, before a b = false → before b a = false → a = b) : l = l' := by
  refine hperm.eq_of_pairwise (fun a b ha hb hba hab => ?_) hl hl'
  exact hsame a ha b (hperm.mem_iff.mpr hb) hab hba

section

variable (hasymm : ∀ a b, before a b = true → before b a = false)
  (htrans : ∀ a b c, before b a = false → before c b = false → before c a = false)

include hasymm htrans in
/-- Read off sorted lists the elements come sorted. -/
theorem Drains.sorted {ls rest : List (List α)} {l : List α} (h : Drains before ls l rest)
    (hls : ∀ l ∈ ls, Sorted before l) : Sorted before l := by
  have hirrefl : ∀ a, before a a = false := by
    intro a
    cases haa : before a a with
    | false => rfl
    | true => exact haa ▸ hasymm a a haa
  induction h with
  | stop ls => exact List.Pairwise.nil
  | @take ls rest i a t l hi hmin hrest ih =>
    -- nothing in the lists comes before the least head
    have hleast : ∀ b ∈ ls.flatten, before b a = false := by
      intro b hb
      obtain ⟨x, hx, hbx⟩ := List.mem_flatten.mp hb
      obtain ⟨j, hj⟩ := List.mem_iff_getElem?.mp hx
      cases x with
      | nil => cases hbx
      | cons c u =>
        have hca := hmin j c u hj
        rcases List.mem_cons.mp hbx with rfl | hbu
        · exact hca
        · exact htrans _ _ _ hca ((List.pairwise_cons.mp (hls _ hx)).1 b hbu)
    refine List.pairwise_cons.mpr ⟨fun b hb => ?_, ih (sorted_set hi hls)⟩
    have hb' : b ∈ (ls.set i t).flatten := hrest.perm.mem_iff.mp (List.mem_append_left _ hb)
    exact hleast b ((perm_set hi).mem_iff.mp (List.mem_cons_of_mem a hb'))

end

end KWay
