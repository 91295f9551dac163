import Kvdb.Lib.SearchTree
import Mathlib.Data.List.Basic

/-!
# Heap order on binary trees

`Heap le t` says that no value lies above a value that it is not `le` to.  A node
that is lifted by rotations breaks the order on one edge only (`Lifting`), and
each rotation moves that edge up (`Lifting.rightRotate`, `Lifting.leftRotate`)
until the order holds (`Lifting.heap`).  A heap-ordered tree is the only one with
its values from left to right (`heap_unique`).
-/

namespace SearchTree

variable {α : Type} {le : α → α → Prop}

/-- Every value is `le` to those above it. -/
def Heap (le : α → α → Prop) : BinTree α → Prop
  | .nil => True
  | .node l a r => (∀ b, b ∈ l.inorder ∨ b ∈ r.inorder → le b a) ∧ Heap le l ∧ Heap le r

/-- The same for a path, at whose end a tree of the values `vals` hangs. -/
def HeapPath (le : α → α → Prop) : Path α → List α → Prop
  | [], _ => True
  | f :: p, vals =>
    (∀ b, b ∈ vals ∨ b ∈ f.sibling.inorder → le b f.val) ∧ Heap le f.sibling ∧
      HeapPath le p (vals ++ f.val :: f.sibling.inorder)

/-- Heap order but for the edge above the node with the value `a`. -/
structure Lifting (le : α → α → Prop) (p : Path α) (l : BinTree α) (a : α) (r : BinTree α) : Prop where
  below : Heap le (.node l a r)
  above : HeapPath le p (l.inorder ++ r.inorder)

section

variable {t u l r : BinTree α} {a : α} {p : Path α} {f : Frame α} {vals vals' : List α}

theorem HeapPath.mono (h : HeapPath le p vals) (hsub : ∀ b ∈ vals', b ∈ vals) : HeapPath le p vals' := by
  induction p generalizing vals vals' with
  | nil => trivial
  | cons f p ih =>
    obtain ⟨hf, hsib, hp⟩ := h
    refine ⟨?_, hsib, ih hp ?_⟩
    · rintro b (hb | hb)
      · exact hf b (.inl (hsub b hb))
      · exact hf b (.inr hb)
    · intro b hb
      rcases List.mem_append.mp hb with hb | hb
      · exact List.mem_append_left _ (hsub b hb)
      · exact List.mem_append_right _ hb

/-- One more value below, when it is `le` to the lowest node of the path. -/
theorem HeapPath.cons (htrans : ∀ a b c, le a b → le b c → le a c) (h : HeapPath le (f :: p) vals)
    (ha : le a f.val) : HeapPath le (f :: p) (a :: vals) := by
  induction p generalizing f vals with
  | nil =>
    obtain ⟨hf, hsib, -⟩ := h
    refine ⟨?_, hsib, trivial⟩
    rintro b (hb | hb)
    · rcases List.mem_cons.mp hb with rfl | hb
      · exact ha
      · exact hf b (.inl hb)
    · exact hf b (.inr hb)
  | cons g p ih =>
    obtain ⟨hf, hsib, hp⟩ := h
    refine ⟨?_, hsib, ?_⟩
    · rintro b (hb | hb)
      · rcases List.mem_cons.mp hb with rfl | hb
        · exact ha
        · exact hf b (.inl hb)
      · exact hf b (.inr hb)
    · have hfg : le f.val g.val := hp.1 f.val (.inl (by simp))
      exact ih hp (htrans _ _ _ ha hfg)

theorem mem_fill {b : α} : b ∈ (f.fill t).inorder ↔ b ∈ t.inorder ∨ b = f.val ∨ b ∈ f.sibling.inorder := by
  unfold Frame.fill
  cases f.side with
  | left => simp [BinTree.inorder]
  | right =>
    simp only [BinTree.inorder, List.mem_append, List.mem_cons]
    tauto

theorem heap_fill : Heap le (f.fill t) ↔
    (∀ b, b ∈ t.inorder ∨ b ∈ f.sibling.inorder → le b f.val) ∧ Heap le t ∧ Heap le f.sibling := by
  unfold Frame.fill
  cases f.side with
  | left => exact Iff.rfl
  | right =>
    show (∀ b, _ ∨ _ → _) ∧ _ ∧ _ ↔ _
    constructor
    · rintro ⟨h, hs, ht⟩
      exact ⟨fun b hb => h b hb.symm, ht, hs⟩
    · rintro ⟨h, ht, hs⟩
      exact ⟨fun b hb => h b hb.symm, hs, ht⟩

/-- A whole tree is a path and the tree at its end. -/
theorem heap_plug : Heap le (plug p t) ↔ Heap le t ∧ HeapPath le p t.inorder := by
  induction p generalizing t with
  | nil =>
    show Heap le t ↔ Heap le t ∧ True
    rw [and_true]
  | cons f p ih =>
    show Heap le (plug p (f.fill t)) ↔ _
    rw [ih, heap_fill]
    have hp : HeapPath le p (f.fill t).inorder ↔ HeapPath le p (t.inorder ++ f.val :: f.sibling.inorder) := by
      constructor
      · intro h
        refine h.mono fun b hb => mem_fill.mpr ?_
        simpa using hb
      · intro h
        refine h.mono fun b hb => ?_
        simpa using mem_fill.mp hb
    rw [hp]
    constructor
    · rintro ⟨⟨hf, ht, hs⟩, hrest⟩
      exact ⟨ht, hf, hs, hrest⟩
    · rintro ⟨ht, hf, hs, hrest⟩
      exact ⟨⟨hf, ht, hs⟩, hrest⟩

/-- A new leaf anywhere in a heap-ordered tree. -/
theorem lifting_leaf (h : Heap le (plug p .nil)) (a : α) : Lifting le p .nil a .nil :=
  ⟨⟨fun _ hb => hb.elim nofun nofun, trivial, trivial⟩, (heap_plug.mp h).2⟩

/-- A rotation at the parent, when the node is not `le` to it. -/
theorem Lifting.rightRotate {b : α} {s : BinTree α} (htrans : ∀ a b c, le a b → le b c → le a c)
    (h : Lifting le (⟨.left, b, s⟩ :: p) l a r) (hba : le b a) : Lifting le p l a (.node r b s) := by
  obtain ⟨⟨hbelow, hl, hr⟩, hb, hs, hp⟩ := h
  refine ⟨⟨?_, hl, ?_, hr, hs⟩, hp.mono ?_⟩
  · rintro c (hc | hc)
    · exact hbelow c (.inl hc)
    · rcases List.mem_append.mp hc with hc | hc
      · exact hbelow c (.inr hc)
      · rcases List.mem_cons.mp hc with rfl | hc
        · exact hba
        · exact htrans _ _ _ (hb c (.inr hc)) hba
  · rintro c (hc | hc)
    · exact hb c (.inl (List.mem_append_right _ hc))
    · exact hb c (.inr hc)
  · intro c hc
    simp only [BinTree.inorder, List.mem_append, List.mem_cons] at hc ⊢
    tauto

theorem Lifting.leftRotate {b : α} {s : BinTree α} (htrans : ∀ a b c, le a b → le b c → le a c)
    (h : Lifting le (⟨.right, b, s⟩ :: p) l a r) (hba : le b a) : Lifting le p (.node s b l) a r := by
  obtain ⟨⟨hbelow, hl, hr⟩, hb, hs, hp⟩ := h
  refine ⟨⟨?_, ⟨?_, hs, hl⟩, hr⟩, hp.mono ?_⟩
  · rintro c (hc | hc)
    · rcases List.mem_append.mp hc with hc | hc
      · exact htrans _ _ _ (hb c (.inr hc)) hba
      · rcases List.mem_cons.mp hc with rfl | hc
        · exact hba
        · exact hbelow c (.inl hc)
    · exact hbelow c (.inr hc)
  · rintro c (hc | hc)
    · exact hb c (.inr hc)
    · exact hb c (.inl (List.mem_append_left _ hc))
  · intro c hc
    simp only [BinTree.inorder, List.mem_append, List.mem_cons] at hc ⊢
    tauto

/-- The order holds once the node is `le` to its parent, or has none. -/
theorem Lifting.heap (htrans : ∀ a b c, le a b → le b c → le a c) (h : Lifting le p l a r)
    (ha : ∀ f ∈ p.head?, le a f.val) : Heap le (plug p (.node l a r)) := by
  refine heap_plug.mpr ⟨h.below, ?_⟩
  cases p with
  | nil => trivial
  | cons f p =>
    refine (h.above.cons htrans (ha f rfl)).mono fun b hb => ?_
    simp only [BinTree.inorder, List.mem_append, List.mem_cons] at hb ⊢
    tauto

/-- The order and the values from left to right determine the tree. -/
theorem heap_unique (ht : Heap le t) (hu : Heap le u) (h : t.inorder = u.inorder) (hnodup : t.inorder.Nodup)
    (hanti : ∀ a ∈ t.inorder, ∀ b ∈ t.inorder, le a b → le b a → a = b) : t = u := by
  induction t generalizing u with
  | nil =>
    cases u with
    | nil => rfl
    | node l a r => simp [BinTree.inorder] at h
  | node l a r ihl ihr =>
    cases u with
    | nil => simp [BinTree.inorder] at h
    | node l' a' r' =>
      simp only [BinTree.inorder] at h hnodup hanti
      -- both roots are the greatest value
      have hroot : a' = a := by
        have ha : a ∈ l'.inorder ++ a' :: r'.inorder := by
          rw [← h]
          simp
        have ha' : a' ∈ l.inorder ++ a :: r.inorder := by
          rw [h]
          simp
        by_contra hne
        refine hne (hanti a' ha' a (by simp) ?_ ?_)
        · refine ht.1 a' ?_
          simpa [hne] using ha'
        · refine hu.1 a ?_
          have hne' : a ≠ a' := fun heq => hne heq.symm
          simpa [hne'] using ha
      subst hroot
      obtain ⟨hl, hr, hdisj⟩ := List.nodup_append.mp hnodup
      have hnotl : a' ∉ l.inorder := fun hm => hdisj a' hm a' (by simp) rfl
      have hnotr : a' ∉ r.inorder := (List.nodup_cons.mp hr).1
      obtain ⟨hleft, -, hright⟩ := (List.append_cons_inj_of_notMem hnotl hnotr).mp h
      rw [ihl ht.2.1 hu.2.1 hleft hl fun b hb c hc => hanti b (by simp [hb]) c (by simp [hc]),
        ihr ht.2.2 hu.2.2 hright (List.nodup_cons.mp hr).2 fun b hb c hc => hanti b (by simp [hb]) c (by simp [hc])]

end

end SearchTree
