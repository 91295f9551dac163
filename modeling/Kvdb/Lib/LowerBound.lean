import Mathlib.Data.List.TakeWhile

/-!
# Search by halving

`lowerBound p l`: the first position of `l` whose element fails `p`, found the way
`std::lower_bound` finds it, by looking at the middle of what is left.  On a list
that `p` splits (no element satisfies `p` behind one that fails it) it is the
length of `l.takeWhile p`, and the two halves of the list are `take` and `drop`
of it.

    Splits p l → lowerBound p l = (l.takeWhile p).length

`slice_eq_filter` is the form that searches over ranges use: what stands between
two such positions is what satisfies both tests.
-/

namespace LowerBound

variable {α : Type} {p q : α → Bool} {l : List α}

/-- `count` elements from `first` on are left. -/
def loop (p : α → Bool) (l : List α) : Nat → Nat → Nat → Nat
  | 0, first, _ => first
  | fuel + 1, first, count =>
    if count = 0 then first
    else
      match l[first + count / 2]? with
      | none => first
      | some x => if p x then loop p l fuel (first + count / 2 + 1) (count - count / 2 - 1)
        else loop p l fuel first (count / 2)

/-- `std::lower_bound`. -/
def lowerBound (p : α → Bool) (l : List α) : Nat := loop p l l.length 0 l.length

/-- Nothing satisfies `p` behind an element that fails it. -/
def Splits (p : α → Bool) (l : List α) : Prop := l.Pairwise fun x y => p y = true → p x = true

theorem Splits.get (h : Splits p l) {i j : Nat} (hij : i ≤ j) {x y : α} (hx : l[i]? = some x) (hy : l[j]? = some y)
    (hp : p y = true) : p x = true := by
  rcases Nat.lt_or_eq_of_le hij with hlt | rfl
  · obtain ⟨hj, rfl⟩ := List.getElem?_eq_some_iff.mp hy
    obtain ⟨hi, rfl⟩ := List.getElem?_eq_some_iff.mp hx
    exact List.pairwise_iff_getElem.mp h i j hi hj hlt hp
  · rw [hx] at hy
    cases hy
    exact hp

/-- Where a list splits, its first part has all the elements that satisfy `p`. -/
theorem takeWhile_length_of {i : Nat} (hi : i ≤ l.length) (hlow : ∀ j < i, ∀ x, l[j]? = some x → p x = true)
    (hhigh : ∀ x, l[i]? = some x → p x = false) : (l.takeWhile p).length = i := by
  induction l generalizing i with
  | nil =>
    rw [List.length_nil] at hi
    rw [List.takeWhile_nil, List.length_nil]
    omega
  | cons a l ih =>
    cases i with
    | zero =>
      have ha := hhigh a rfl
      rw [List.takeWhile_cons, ha]
      rfl
    | succ i =>
      have ha := hlow 0 (by omega) a rfl
      have hrest := ih (i := i) (by rw [List.length_cons] at hi; omega) (fun j hj x hx => hlow (j + 1) (by omega) x hx)
        fun x hx => hhigh x hx
      rw [List.takeWhile_cons, ha, if_pos rfl, List.length_cons, hrest]

/-- The invariant of the search: before `first` everything satisfies `p`, from its end on nothing
does. -/
theorem loop_eq (h : Splits p l) (fuel first count : Nat) (hfuel : count ≤ fuel) (hle : first + count ≤ l.length)
    (hlow : ∀ j < first, ∀ x, l[j]? = some x → p x = true)
    (hhigh : ∀ j, first + count ≤ j → ∀ x, l[j]? = some x → p x = false) :
    loop p l fuel first count = (l.takeWhile p).length := by
  induction fuel generalizing first count with
  | zero =>
    obtain rfl : count = 0 := by omega
    exact (takeWhile_length_of (by omega) hlow (hhigh first (by omega))).symm
  | succ fuel ih =>
    unfold loop
    by_cases h0 : count = 0
    · rw [if_pos h0]
      exact (takeWhile_length_of (by omega) hlow (hhigh first (by omega))).symm
    · have hmid : first + count / 2 < l.length := by omega
      rw [if_neg h0, List.getElem?_eq_getElem hmid]
      dsimp only
      have hget : l[first + count / 2]? = some l[first + count / 2] := List.getElem?_eq_getElem hmid
      by_cases hp : p l[first + count / 2] = true
      · rw [if_pos hp]
        refine ih _ _ (by omega) (by omega) ?_ ?_
        · intro j hj x hx
          exact h.get (by omega) hx hget hp
        · intro j hj x hx
          exact hhigh j (by omega) x hx
      · rw [if_neg hp]
        refine ih _ _ (by omega) (by omega) hlow ?_
        intro j hj x hx
        rw [← Bool.not_eq_true]
        intro hpx
        exact hp (h.get hj hget hx hpx)

/-- The positions in front of the split are those of the elements that satisfy `p`. -/
theorem lt_takeWhile_iff (h : Splits p l) {i : Nat} {x : α} (hx : l[i]? = some x) :
    i < (l.takeWhile p).length ↔ p x = true := by
  induction l generalizing i with
  | nil => cases hx
  | cons a l ih =>
    have hfirst : p x = true → p a = true := h.get (Nat.zero_le i) rfl hx
    by_cases ha : p a = true
    · rw [List.takeWhile_cons_of_pos ha, List.length_cons]
      cases i with
      | zero =>
        cases hx
        exact iff_of_true (by omega) ha
      | succ i =>
        rw [← ih (List.pairwise_cons.mp h).2 hx]
        omega
    · rw [List.takeWhile_cons_of_neg ha]
      exact iff_of_false (Nat.not_lt_zero i) fun hp => ha (hfirst hp)

theorem lowerBound_eq (h : Splits p l) : lowerBound p l = (l.takeWhile p).length := by
  refine loop_eq h l.length 0 l.length (Nat.le_refl _) (by omega) (by omega) ?_
  intro j hj x hx
  obtain ⟨hlt, -⟩ := List.getElem?_eq_some_iff.mp hx
  omega

/-- The part in front of the position found. -/
theorem take_lowerBound (h : Splits p l) : l.take (lowerBound p l) = l.takeWhile p := by
  have htake : (l.takeWhile p ++ l.dropWhile p).take (l.takeWhile p).length = l.takeWhile p := List.take_left
  rw [List.takeWhile_append_dropWhile] at htake
  rw [lowerBound_eq h, htake]

theorem drop_lowerBound (h : Splits p l) : l.drop (lowerBound p l) = l.dropWhile p := by
  have hdrop : (l.takeWhile p ++ l.dropWhile p).drop (l.takeWhile p).length = l.dropWhile p := List.drop_left
  rw [List.takeWhile_append_dropWhile] at hdrop
  rw [lowerBound_eq h, hdrop]

/-- The element at the position found. -/
theorem getElem?_lowerBound (h : Splits p l) : l[lowerBound p l]? = (l.dropWhile p).head? := by
  rw [← drop_lowerBound h, List.head?_drop]

/-- The element in front of it. -/
theorem getElem?_pred_lowerBound (h : Splits p l) (h0 : lowerBound p l ≠ 0) :
    l[lowerBound p l - 1]? = (l.takeWhile p).getLast? := by
  have hlen : (l.take (lowerBound p l)).length = lowerBound p l := by rw [take_lowerBound h, lowerBound_eq h]
  rw [← take_lowerBound h, List.getLast?_eq_getElem?, hlen, List.getElem?_take_of_lt (by omega)]

theorem dropWhile_eq_filter (h : Splits p l) : l.dropWhile p = l.filter fun x => !p x := by
  induction l with
  | nil => rfl
  | cons a l ih =>
    obtain ⟨ha, hl⟩ := List.pairwise_cons.mp h
    by_cases hp : p a = true
    · rw [List.dropWhile_cons_of_pos hp, List.filter_cons_of_neg (by simp [hp]), ih hl]
    · rw [List.dropWhile_cons_of_neg hp, List.filter_cons_of_pos (by simpa using hp)]
      congr 1
      refine (List.filter_eq_self.mpr fun x hx => ?_).symm
      simp only [Bool.not_eq_true', ← Bool.not_eq_true]
      exact fun hpx => hp (ha x hx hpx)

theorem takeWhile_eq_filter (h : Splits p l) : l.takeWhile p = l.filter p := by
  induction l with
  | nil => rfl
  | cons a l ih =>
    obtain ⟨ha, hl⟩ := List.pairwise_cons.mp h
    by_cases hp : p a = true
    · rw [List.takeWhile_cons_of_pos hp, List.filter_cons_of_pos hp, ih hl]
    · rw [List.takeWhile_cons_of_neg hp]
      refine (List.filter_eq_nil_iff.mpr fun x hx => ?_).symm
      rcases List.mem_cons.mp hx with rfl | hx
      · exact hp
      · exact fun hpx => hp (ha x hx hpx)

/-- Between the first element that fails `p` and the first one behind it that fails `q`. -/
theorem slice_eq_filter (hp : Splits p l) (hq : Splits q l) :
    (l.dropWhile p).takeWhile q = l.filter fun x => !p x && q x := by
  have hsub : Splits q (l.dropWhile p) := List.Pairwise.sublist (List.dropWhile_sublist p) hq
  rw [takeWhile_eq_filter hsub, dropWhile_eq_filter hp, List.filter_filter]
  congr 1
  funext x
  exact Bool.and_comm _ _

/-- The first element with `q`, when those that satisfy `p` are the ones in front of it. -/
theorem findIdx?_eq (hp : Splits p l) (hsep : ∀ x ∈ l, q x = true → p x = false)
    (hfirst : l.Pairwise fun x y => p x = false → q y = true → q x = true) :
    l.findIdx? q = l[lowerBound p l]?.bind fun x => if q x then some (lowerBound p l) else none := by
  have hlen : (l.takeWhile p).length = lowerBound p l := (lowerBound_eq hp).symm
  have hnone : (l.takeWhile p).findIdx? q = none := by
    refine List.findIdx?_eq_none_iff.mpr fun x hx => ?_
    have htrue := List.mem_takeWhile_imp hx
    rw [← Bool.not_eq_true]
    intro hq
    rw [hsep x ((List.takeWhile_sublist p).subset hx) hq] at htrue
    cases htrue
  have hsub : (l.dropWhile p).Pairwise fun x y => p x = false → q y = true → q x = true :=
    hfirst.sublist (List.dropWhile_sublist p)
  have hsplit : l.findIdx? q = (l.takeWhile p ++ l.dropWhile p).findIdx? q := by
    rw [List.takeWhile_append_dropWhile]
  rw [getElem?_lowerBound hp, hsplit, List.findIdx?_append, hnone, Option.none_or, hlen]
  cases hd : l.dropWhile p with
  | nil => rfl
  | cons x rest =>
    rw [hd] at hsub
    have hx : p x = false := by
      have := List.dropWhile_get_zero_not p l (by rw [hd]; simp)
      simpa [hd] using this
    rw [List.head?_cons, List.findIdx?_cons, Option.bind_some]
    by_cases hq : q x = true
    · rw [if_pos hq, if_pos hq, Option.map_some, Nat.zero_add]
    · have hrest : rest.findIdx? q = none := by
        refine List.findIdx?_eq_none_iff.mpr fun y hy => ?_
        rw [← Bool.not_eq_true]
        exact fun hqy => hq ((List.pairwise_cons.mp hsub).1 y hy hx hqy)
      rw [if_neg hq, if_neg hq, hrest]
      rfl

/-! ## Blocks -/

/-- The first element with `p` in blocks that `q` splits: no block with `q` has one, and a block
without `q` has one if a
later block does.  It is the first in the block that the search by halving finds. -/
theorem find?_flatten {p : α → Bool} {q : List α → Bool} {ls : List (List α)}
    (hskip : ∀ l ∈ ls, q l = true → ∀ x ∈ l, p x = false)
    (hstop : ls.Pairwise fun l m => q l = false → ∀ y ∈ m, p y = true → ∃ x ∈ l, p x = true) :
    ls.flatten.find? p = ls[(ls.takeWhile q).length]?.bind (List.find? p) := by
  induction ls with
  | nil => rfl
  | cons l ls ih =>
    obtain ⟨hlater, hrest⟩ := List.pairwise_cons.mp hstop
    have hih := ih (fun m hm => hskip m (List.mem_cons_of_mem l hm)) hrest
    rw [List.flatten_cons, List.find?_append]
    cases hq : q l with
    | true =>
      have hnone : l.find? p = none := by
        rw [List.find?_eq_none]
        intro x hx
        rw [hskip l List.mem_cons_self hq x hx]
        exact Bool.false_ne_true
      rw [hnone, Option.none_or, List.takeWhile_cons_of_pos hq, List.length_cons, List.getElem?_cons_succ, hih]
    | false =>
      rw [List.takeWhile_cons_of_neg (by simp [hq])]
      show _ = l.find? p
      cases hfind : l.find? p with
      | some x => rfl
      | none =>
        rw [Option.none_or, List.find?_eq_none]
        intro y hy hpy
        obtain ⟨m, hm, hym⟩ := List.mem_flatten.mp hy
        obtain ⟨x, hx, hpx⟩ := hlater m hm hq y hym hpy
        exact List.find?_eq_none.mp hfind x hx hpx

end LowerBound
