import Mathlib.Data.List.TakeWhile

/-!
# Binary search trees with parent pointers

A node that knows its parent is a tree with the path above it: `plug p t` is the
whole tree when `t` hangs at the end of the path `p`.  Walking to the parent
takes a frame off the path, and a rotation at an ancestor changes the tree that
its frames build.

Everything is stated on `inorder`, the list of the values from left to right:
rotations keep it (`inorder_leftRotate`, `inorder_rightRotate`), an insertion puts
a value between what is below and what is above it (`descend_some`), and a
search that keeps the last hit finds the first one in order (`findLoop_eq`).
-/

namespace SearchTree

variable {α β : Type}

inductive BinTree (α : Type) where
  | nil
  | node (left : BinTree α) (val : α) (right : BinTree α)
deriving Repr

inductive Side where
  | left
  | right
deriving DecidableEq, Repr

/-- A node above: the side on which the path goes on, its value, and its other child. -/
structure Frame (α : Type) where
  side : Side
  val : α
  sibling : BinTree α
deriving Repr

/-- The nodes above, the parent first. -/
abbrev Path (α : Type) := List (Frame α)

namespace BinTree

def inorder : BinTree α → List α
  | nil => []
  | node l a r => l.inorder ++ a :: r.inorder

/-- The number of nodes. -/
def size : BinTree α → Nat
  | nil => 0
  | node l _ r => l.size + 1 + r.size

/-- The value at the root. -/
def root? : BinTree α → Option α
  | nil => none
  | node _ a _ => some a

def map (g : α → β) : BinTree α → BinTree β
  | nil => nil
  | node l a r => node (l.map g) (g a) (r.map g)

/-- The number of nodes on the longest way down. -/
def height : BinTree α → Nat
  | nil => 0
  | node l _ r => max l.height r.height + 1

def leftRotate : BinTree α → BinTree α
  | node a v (node b u c) => node (node a v b) u c
  | t => t

def rightRotate : BinTree α → BinTree α
  | node (node a u b) v c => node a u (node b v c)
  | t => t

end BinTree

/-- The tree of a frame with `t` as the child on the path. -/
def Frame.fill (f : Frame α) (t : BinTree α) : BinTree α :=
  match f.side with
  | .left => .node t f.val f.sibling
  | .right => .node f.sibling f.val t

def Frame.map (g : α → β) (f : Frame α) : Frame β :=
  { side := f.side, val := g f.val, sibling := f.sibling.map g }

/-- The whole tree. -/
def plug : Path α → BinTree α → BinTree α
  | [], t => t
  | f :: p, t => plug p (f.fill t)

/-- The values to the left of a path's end. -/
def before : Path α → List α
  | [] => []
  | f :: p =>
    before p ++
      match f.side with
      | .left => []
      | .right => f.sibling.inorder ++ [f.val]

/-- The values to its right. -/
def after : Path α → List α
  | [] => []
  | f :: p =>
    (match f.side with
      | .left => f.val :: f.sibling.inorder
      | .right => []) ++ after p

/-- The place for `v` below `t`; `none` when a value equivalent to `v` is there already. -/
def descend (lt : α → α → Bool) (v : α) : BinTree α → Path α → Option (Path α)
  | .nil, p => some p
  | .node l a r, p =>
    if !lt v a && !lt a v then none
    else if lt v a then descend lt v l (⟨.left, a, r⟩ :: p)
    else descend lt v r (⟨.right, a, l⟩ :: p)

/-- Go right below the target, else remember a hit and go left. -/
def findLoop (below hit : α → Bool) : BinTree α → Option α → Option α
  | .nil, result => result
  | .node l a r, result =>
    if below a then findLoop below hit r result
    else findLoop below hit l (if hit a then some a else result)

/-! ## Traversal with a stack -/

/-- Push a node and everything on its left spine, each with its right child. -/
def pushLeft : BinTree α → List (α × BinTree α) → List (α × BinTree α)
  | .nil, st => st
  | .node l a r, st => pushLeft l ((a, r) :: st)

/-- Pop until the stack is empty. -/
def popAll : Nat → List (α × BinTree α) → List α
  | 0, _ => []
  | _ + 1, [] => []
  | fuel + 1, (a, r) :: st => a :: popAll fuel (pushLeft r st)

/-! ## Rotations -/

@[simp] theorem inorder_leftRotate (t : BinTree α) : t.leftRotate.inorder = t.inorder := by
  unfold BinTree.leftRotate
  split
  · simp [BinTree.inorder]
  · rfl

@[simp] theorem inorder_rightRotate (t : BinTree α) : t.rightRotate.inorder = t.inorder := by
  unfold BinTree.rightRotate
  split
  · simp [BinTree.inorder]
  · rfl

/-! ## Paths -/

theorem plug_append (p q : Path α) (t : BinTree α) : plug (p ++ q) t = plug q (plug p t) := by
  induction p generalizing t with
  | nil => rfl
  | cons f p ih => exact ih (f.fill t)

/-- Every node has a path. -/
theorem exists_plug_of_mem {a : α} {t : BinTree α} (h : a ∈ t.inorder) : ∃ p l r, plug p (.node l a r) = t := by
  induction t with
  | nil => cases h
  | node l b r ihl ihr =>
    rcases List.mem_append.mp h with hl | hr
    · obtain ⟨p, l', r', hp⟩ := ihl hl
      refine ⟨p ++ [⟨.left, b, r⟩], l', r', ?_⟩
      rw [plug_append, hp]
      rfl
    · rcases List.mem_cons.mp hr with rfl | hr
      · exact ⟨[], l, r, rfl⟩
      · obtain ⟨p, l', r', hp⟩ := ihr hr
        refine ⟨p ++ [⟨.right, b, l⟩], l', r', ?_⟩
        rw [plug_append, hp]
        rfl

theorem inorder_plug (p : Path α) (t : BinTree α) : (plug p t).inorder = before p ++ t.inorder ++ after p := by
  induction p generalizing t with
  | nil => simp [plug, before, after]
  | cons f p ih =>
    obtain ⟨side, a, s⟩ := f
    cases side with
    | left => simp [plug, ih, before, after, Frame.fill, BinTree.inorder]
    | right => simp [plug, ih, before, after, Frame.fill, BinTree.inorder]

/-- Two subtrees with the same values are interchangeable below a path. -/
theorem inorder_plug_congr (p : Path α) {t u : BinTree α} (h : t.inorder = u.inorder) :
    (plug p t).inorder = (plug p u).inorder := by
  rw [inorder_plug, inorder_plug, h]

theorem inorder_fill_congr (f : Frame α) {t u : BinTree α} (h : t.inorder = u.inorder) :
    (f.fill t).inorder = (f.fill u).inorder :=
  inorder_plug_congr [f] h

theorem inorder_fill_map {g : α → β} {f f' : Frame α} {t t' : BinTree α} (hside : f'.side = f.side)
    (hval : g f'.val = g f.val) (hsib : f'.sibling.inorder.map g = f.sibling.inorder.map g)
    (ht : t'.inorder.map g = t.inorder.map g) :
    (f'.fill t').inorder.map g = (f.fill t).inorder.map g := by
  obtain ⟨side, a, s⟩ := f
  obtain ⟨side', a', s'⟩ := f'
  cases hside
  cases side with
  | left => simp_all [Frame.fill, BinTree.inorder]
  | right => simp_all [Frame.fill, BinTree.inorder]

theorem inorder_plug_map {g : α → β} (p : Path α) {t t' : BinTree α}
    (ht : t'.inorder.map g = t.inorder.map g) : (plug p t').inorder.map g = (plug p t).inorder.map g := by
  rw [inorder_plug, inorder_plug]
  simp [ht]

/-! ## Other values in the same places -/

section Map

variable (g : α → β)

theorem inorder_map (t : BinTree α) : (t.map g).inorder = t.inorder.map g := by
  induction t with
  | nil => rfl
  | node l a r ihl ihr =>
    rw [BinTree.map, BinTree.inorder, BinTree.inorder, ihl, ihr, List.map_append, List.map_cons]

theorem map_fill (f : Frame α) (t : BinTree α) : (f.fill t).map g = (f.map g).fill (t.map g) := by
  obtain ⟨side, a, sib⟩ := f
  cases side with
  | left => rfl
  | right => rfl

theorem map_plug (p : Path α) (t : BinTree α) : (plug p t).map g = plug (p.map (Frame.map g)) (t.map g) := by
  induction p generalizing t with
  | nil => rfl
  | cons f p ih =>
    show (plug p (f.fill t)).map g = plug (p.map (Frame.map g)) ((f.map g).fill (t.map g))
    rw [ih, map_fill]

/-- A descent that looks at the values only through `g`. -/
theorem descend_map (lt : β → β → Bool) (v : α) (t : BinTree α) (p : Path α) :
    descend lt (g v) (t.map g) (p.map (Frame.map g)) =
      (descend (fun a b => lt (g a) (g b)) v t p).map (List.map (Frame.map g)) := by
  induction t generalizing p with
  | nil => rfl
  | node l a r ihl ihr =>
    rw [BinTree.map, descend, descend]
    split
    · rfl
    · split
      · exact ihl (⟨.left, a, r⟩ :: p)
      · exact ihr (⟨.right, a, l⟩ :: p)

end Map

/-! ## Insertion -/

section Insert

variable {lt : α → α → Bool} {v : α}

/-- The place that is found: the tree is as it was, and `v` belongs between the two sides. -/
theorem descend_some {t : BinTree α} {p p' : Path α} (h : descend lt v t p = some p')
    (htrans : ∀ a b c, lt a b = true → lt b c = true → lt a c = true)
    (ht : t.inorder.Pairwise fun a b => lt a b = true)
    (hb : ∀ x ∈ before p, lt x v = true) (ha : ∀ x ∈ after p, lt v x = true) :
    plug p' .nil = plug p t ∧ (∀ x ∈ before p', lt x v = true) ∧ ∀ x ∈ after p', lt v x = true := by
  induction t generalizing p with
  | nil =>
    cases h
    exact ⟨rfl, hb, ha⟩
  | node l a r ihl ihr =>
    simp only [BinTree.inorder] at ht
    obtain ⟨hl, har, hcross⟩ := List.pairwise_append.mp ht
    obtain ⟨hra, hr⟩ := List.pairwise_cons.mp har
    rw [descend] at h
    split at h
    · cases h
    · next hdup =>
      split at h
      · next hva =>
        refine ihl h hl ?_ ?_
        · simpa [before] using hb
        · intro x hx
          simp only [after, List.cons_append, List.mem_cons, List.mem_append] at hx
          rcases hx with rfl | hx | hx
          · exact hva
          · exact htrans v a x hva (hra x hx)
          · exact ha x hx
      · next hva =>
        have hav : lt a v = true := by simpa [hva] using hdup
        refine ihr h hr ?_ ?_
        · intro x hx
          simp only [before, List.mem_append, List.mem_singleton] at hx
          rcases hx with hx | hx | rfl
          · exact hb x hx
          · exact htrans x a v (hcross x hx a (by simp)) hav
          · exact hav
        · simpa [after] using ha

/-- A descent only walks down. -/
theorem descend_plug {t : BinTree α} {p p' : Path α} (h : descend lt v t p = some p') :
    plug p' .nil = plug p t := by
  induction t generalizing p with
  | nil =>
    cases h
    rfl
  | node l a r ihl ihr =>
    rw [descend] at h
    split at h
    · cases h
    · split at h
      · exact ihl h
      · exact ihr h

/-- The last step of a descent goes the way the comparison says. -/
theorem descend_side {t : BinTree α} {p p' : Path α} (h : descend lt v t p = some p')
    (hp : ∀ f ∈ p.head?, f.side = if lt v f.val then .left else .right) :
    ∀ f ∈ p'.head?, f.side = if lt v f.val then .left else .right := by
  induction t generalizing p with
  | nil =>
    cases h
    exact hp
  | node l a r ihl ihr =>
    rw [descend] at h
    split at h
    · cases h
    · split at h
      · next hva =>
        refine ihl h ?_
        intro f hf
        cases hf
        exact (if_pos hva).symm
      · next hva =>
        refine ihr h ?_
        intro f hf
        cases hf
        exact (if_neg hva).symm

/-- No place is found only for an equivalent value. -/
theorem descend_none {t : BinTree α} {p : Path α} (h : descend lt v t p = none) :
    ∃ x ∈ t.inorder, lt v x = false ∧ lt x v = false := by
  induction t generalizing p with
  | nil => cases h
  | node l a r ihl ihr =>
    rw [descend] at h
    split at h
    · next hdup =>
      simp only [Bool.and_eq_true, Bool.not_eq_true'] at hdup
      exact ⟨a, by simp [BinTree.inorder], hdup⟩
    · split at h
      · obtain ⟨x, hx, heq⟩ := ihl h
        exact ⟨x, by simp [BinTree.inorder, hx], heq⟩
      · obtain ⟨x, hx, heq⟩ := ihr h
        exact ⟨x, by simp [BinTree.inorder, hx], heq⟩

end Insert

/-! ## Search -/

/-- In an ordered tree the values below the target come first and are no hits, and the hits come
right behind them. -/
def Searchable (below hit : α → Bool) (l : List α) : Prop :=
  (∀ a ∈ l, below a = true → hit a = false) ∧
    l.Pairwise fun a b => (below b = true → below a = true) ∧ (below a = false → hit b = true → hit a = true)

/-- So the first hit is the first value that is not below, or there is none. -/
theorem Searchable.find?_eq {below hit : α → Bool} {l : List α} (h : Searchable below hit l) :
    l.find? hit = (l.dropWhile below).head?.filter hit := by
  induction l with
  | nil => rfl
  | cons a l ih =>
    obtain ⟨hmiss, hpair⟩ := h
    obtain ⟨ha, hl⟩ := List.pairwise_cons.mp hpair
    by_cases hbelow : below a = true
    · rw [List.find?_cons_of_neg (by simp [hmiss a (by simp) hbelow]), List.dropWhile_cons, if_pos hbelow]
      exact ih ⟨fun x hx => hmiss x (by simp [hx]), hl⟩
    · rw [List.dropWhile_cons, if_neg hbelow, List.head?_cons]
      by_cases hhit : hit a = true
      · simp [Option.filter, hhit]
      · have hnone : l.find? hit = none := by
          rw [List.find?_eq_none]
          intro x hx hx'
          exact hhit ((ha x hx).2 (by simpa using hbelow) hx')
        simp [Option.filter, hhit, hnone]

theorem findLoop_eq {below hit : α → Bool} {t : BinTree α} (h : Searchable below hit t.inorder)
    (result : Option α) : findLoop below hit t result = (t.inorder.find? hit).or result := by
  induction t generalizing result with
  | nil => simp [findLoop, BinTree.inorder]
  | node l a r ihl ihr =>
    simp only [BinTree.inorder] at h ⊢
    obtain ⟨hmiss, hpair⟩ := h
    obtain ⟨hl, har, hcross⟩ := List.pairwise_append.mp hpair
    obtain ⟨hra, hr⟩ := List.pairwise_cons.mp har
    have hleft : Searchable below hit l.inorder := ⟨fun x hx => hmiss x (by simp [hx]), hl⟩
    have hright : Searchable below hit r.inorder := ⟨fun x hx => hmiss x (by simp [hx]), hr⟩
    rw [findLoop]
    split
    · next hbelow =>
      -- everything up to here is below the target
      have hnone : l.inorder.find? hit = none := by
        rw [List.find?_eq_none]
        intro x hx
        rw [hmiss x (by simp [hx]) ((hcross x hx a (by simp)).1 hbelow)]
        simp
      rw [ihr hright, List.find?_append, hnone, List.find?_cons_of_neg (by simp [hmiss a (by simp) hbelow])]
      rfl
    · next hbelow =>
      have hbelow' : below a = false := by simpa using hbelow
      rw [ihl hleft, List.find?_append]
      by_cases hhit : hit a = true
      · rw [if_pos hhit, List.find?_cons_of_pos hhit]
        simp
      · -- a hit to the right would make this one a hit
        have hnone : r.inorder.find? hit = none := by
          rw [List.find?_eq_none]
          intro x hx hx'
          exact hhit ((hra x hx).2 hbelow' hx')
        rw [if_neg hhit, List.find?_cons_of_neg hhit, hnone]
        simp

/-! ## Traversal -/

/-- What the stack still holds, in order. -/
def stackList : List (α × BinTree α) → List α
  | [] => []
  | (a, r) :: st => a :: (r.inorder ++ stackList st)

theorem stackList_pushLeft (t : BinTree α) (st : List (α × BinTree α)) :
    stackList (pushLeft t st) = t.inorder ++ stackList st := by
  induction t generalizing st with
  | nil => rfl
  | node l a r ihl _ => simp [pushLeft, ihl, stackList, BinTree.inorder]

theorem popAll_eq {fuel : Nat} {st : List (α × BinTree α)} (h : (stackList st).length ≤ fuel) :
    popAll fuel st = stackList st := by
  induction fuel generalizing st with
  | zero =>
    have hnil : stackList st = [] := List.eq_nil_of_length_eq_zero (by omega)
    rw [hnil]
    rfl
  | succ fuel ih =>
    cases st with
    | nil => rfl
    | cons top st =>
      obtain ⟨a, r⟩ := top
      have hst := stackList_pushLeft r st
      rw [stackList, List.length_cons, ← hst] at h
      rw [popAll, stackList, ih (by omega), hst]

theorem BinTree.size_eq (t : BinTree α) : t.size = t.inorder.length := by
  induction t with
  | nil => rfl
  | node l a r ihl ihr =>
    simp only [size, inorder, ihl, ihr, List.length_append, List.length_cons]
    omega

theorem length_le_size (p : Path α) (t : BinTree α) : p.length + t.size ≤ (plug p t).size := by
  induction p generalizing t with
  | nil =>
    show 0 + t.size ≤ t.size
    omega
  | cons f p ih =>
    have hfill : t.size + 1 ≤ (f.fill t).size := by
      unfold Frame.fill
      cases f.side with
      | left =>
        show t.size + 1 ≤ t.size + 1 + f.sibling.size
        omega
      | right =>
        show t.size + 1 ≤ f.sibling.size + 1 + t.size
        omega
    have hp := ih (f.fill t)
    rw [List.length_cons]
    show p.length + 1 + t.size ≤ (plug p (f.fill t)).size
    omega

theorem size_map (g : α → β) (t : BinTree α) : (t.map g).size = t.size := by
  rw [(t.map g).size_eq, t.size_eq, inorder_map, List.length_map]

theorem popAll_pushLeft (t : BinTree α) : popAll t.size (pushLeft t []) = t.inorder := by
  have hst := stackList_pushLeft t []
  rw [stackList, List.append_nil] at hst
  rw [popAll_eq (by rw [hst, t.size_eq]), hst]

end SearchTree
