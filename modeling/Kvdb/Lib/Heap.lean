import Mathlib.Data.List.Sort

/-!
# Heaps of the standard library

`std::push_heap` and `std::pop_heap` work on a range that is a heap with respect to
a comparison: no element orders behind its parent (`IsHeap`).  How they arrange
the elements is left open; `LawfulHeap` has what is promised, for a strict weak
order on a heap.

The first element of a heap is one that no other element orders behind
(`IsHeap.head`), and a heap stays one under another comparison that agrees with the
first on its elements (`IsHeap.congr`).
-/

namespace Heap

/-- A strict weak order. -/
structure StrictWeak {α : Type} (comp : α → α → Bool) : Prop where
  asymm : ∀ a b, comp a b = true → comp b a = false
  trans : ∀ a b c, comp a b = false → comp b c = false → comp a c = false

/-- No element orders behind its parent. -/
def IsHeap {α : Type} (comp : α → α → Bool) (l : List α) : Prop :=
  ∀ i a b, l[i / 2]? = some a → l[i + 1]? = some b → comp a b = false

/-- Pushing an element onto a heap, and popping the first one. -/
class HeapOps where
  push : {α : Type} → (α → α → Bool) → List α → α → List α
  pop : {α : Type} → (α → α → Bool) → List α → List α

/-- What the standard promises. -/
class LawfulHeap [HeapOps] : Prop where
  push_perm {α : Type} {comp : α → α → Bool} {l : List α} (a : α) (hc : StrictWeak comp) (h : IsHeap comp l) :
    (HeapOps.push comp l a).Perm (a :: l)
  push_heap {α : Type} {comp : α → α → Bool} {l : List α} (a : α) (hc : StrictWeak comp) (h : IsHeap comp l) :
    IsHeap comp (HeapOps.push comp l a)
  pop_perm {α : Type} {comp : α → α → Bool} {l : List α} {a : α} (hc : StrictWeak comp)
    (h : IsHeap comp (a :: l)) : (HeapOps.pop comp (a :: l)).Perm l
  pop_heap {α : Type} {comp : α → α → Bool} {l : List α} {a : α} (hc : StrictWeak comp)
    (h : IsHeap comp (a :: l)) : IsHeap comp (HeapOps.pop comp (a :: l))

section

variable {α : Type} {comp comp' : α → α → Bool} {l : List α} {a : α}

theorem isHeap_nil : IsHeap comp [] := by
  intro i x y hx
  simp at hx

/-- No element of a heap orders behind the first one. -/
theorem IsHeap.head (hc : StrictWeak comp) (h : IsHeap comp (a :: l)) : ∀ b ∈ a :: l, comp a b = false := by
  have hirrefl : comp a a = false := by
    cases haa : comp a a with
    | false => rfl
    | true => exact haa ▸ hc.asymm a a haa
  have hindex : ∀ (n : Nat) (b : α), (a :: l)[n]? = some b → comp a b = false := by
    intro n
    -- by induction on the place: the parent is in front
    induction n using Nat.strongRecOn with
    | ind n ih =>
      intro b hb
      cases n with
      | zero =>
        cases hb
        exact hirrefl
      | succ i =>
        have hlt : i / 2 < (a :: l).length := by
          have hi := (List.getElem?_eq_some_iff.mp hb).1
          omega
        have hparent := List.getElem?_eq_getElem hlt
        exact hc.trans a _ b (ih (i / 2) (by omega) _ hparent) (h i _ b hparent hb)
  intro b hb
  obtain ⟨n, hn⟩ := List.mem_iff_getElem?.mp hb
  exact hindex n b hn

theorem IsHeap.congr (h : IsHeap comp l) (heq : ∀ a ∈ l, ∀ b ∈ l, comp' a b = comp a b) : IsHeap comp' l := by
  intro i a b ha hb
  rw [heq a (List.mem_of_getElem? ha) b (List.mem_of_getElem? hb)]
  exact h i a b ha hb

end

/-! ## Arranging by sorting -/

/-- Heaps that are sorted as a whole. -/
abbrev sortedHeap : HeapOps where
  push comp l a := (a :: l).insertionSort fun x y => comp x y = false
  pop comp l := l.tail.insertionSort fun x y => comp x y = false

theorem isHeap_insertionSort {α : Type} {comp : α → α → Bool} (hc : StrictWeak comp) (l : List α) :
    IsHeap comp (l.insertionSort fun x y => comp x y = false) := by
  have htotal : Std.Total fun x y => comp x y = false := by
    constructor
    intro x y
    cases hxy : comp x y with
    | false => exact .inl rfl
    | true => exact .inr (hc.asymm x y hxy)
  have htrans : IsTrans α fun x y => comp x y = false := ⟨hc.trans⟩
  have hsorted := List.pairwise_insertionSort (fun x y => comp x y = false) l
  intro i x y hx hy
  have hlt := (List.getElem?_eq_some_iff.mp hy).1
  have hxy := List.pairwise_iff_getElem.mp hsorted (i / 2) (i + 1) (by omega) hlt (by omega)
  rw [List.getElem?_eq_getElem (by omega)] at hx
  rw [List.getElem?_eq_getElem hlt] at hy
  cases hx
  cases hy
  exact hxy

theorem sortedHeap_lawful : @LawfulHeap sortedHeap := by
  refine @LawfulHeap.mk sortedHeap ?_ ?_ ?_ ?_
  · intro α comp l a _ _
    exact List.perm_insertionSort _ _
  · intro α comp l a hc _
    exact isHeap_insertionSort hc _
  · intro α comp l a _ _
    exact List.perm_insertionSort _ _
  · intro α comp l a hc _
    exact isHeap_insertionSort hc _

end Heap
