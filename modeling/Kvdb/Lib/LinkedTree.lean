import Kvdb.Lib.SearchTree
import Mathlib.Data.List.Nodup
import Mathlib.Logic.Function.Basic

/-!
# Binary trees with parent pointers in a memory

A node is a cell at an address, with pointers to its children and its parent.
`Represents s t` says that the cells of the store `s` are those of the tree `t`,
whose values carry their addresses: every pointer of a cell is the address of the
neighbour that the tree has there, the parent pointers too.

A rotation by pointer assignments is the rotation of the tree at the node, below
any path (`Represents.rotate`), and attaching a cell at the place of a descent
fills that place (`Represents.attach`).
-/

namespace LinkedTree

open SearchTree

variable {α β : Type}

/-- Trees whose values come with the address of their cell. -/
abbrev AddrTree (α : Type) := BinTree (Nat × α)

abbrev AddrPath (α : Type) := Path (Nat × α)

/-- The tree without the addresses. -/
abbrev bare (t : AddrTree α) : BinTree α := t.map Prod.snd

abbrev barePath (p : AddrPath α) : Path α := p.map (Frame.map Prod.snd)

structure Cell (α : Type) where
  val : α
  left : Option Nat := none
  right : Option Nat := none
  parent : Option Nat := none
deriving Repr, DecidableEq

/-- The cells, the root pointer, and the address of the next cell. -/
structure Store (α : Type) where
  cell : Nat → Option (Cell α)
  root : Option Nat
  next : Nat

namespace Store

def empty : Store α := { cell := fun _ => none, root := none, next := 0 }

end Store

/-- The other side. -/
def other : Side → Side
  | .left => .right
  | .right => .left

@[simp] theorem other_other (side : Side) : other (other side) = side := by
  cases side with
  | left => rfl
  | right => rfl

theorem eq_other {side side' : Side} (h : ¬side = side') : side' = other side := by
  cases side with
  | left =>
    cases side' with
    | left => exact absurd rfl h
    | right => rfl
  | right =>
    cases side' with
    | left => rfl
    | right => exact absurd rfl h

namespace Cell

def child (side : Side) (c : Cell α) : Option Nat :=
  match side with
  | .left => c.left
  | .right => c.right

def setChild (side : Side) (p : Option Nat) (c : Cell α) : Cell α :=
  match side with
  | .left => { c with left := p }
  | .right => { c with right := p }

def setParent (p : Option Nat) (c : Cell α) : Cell α := { c with parent := p }

def setVal (g : α → α) (c : Cell α) : Cell α := { c with val := g c.val }

end Cell

namespace Store

/-- Assignments to fields of the cell at an address. -/
def modify (s : Store α) (a : Nat) (f : Cell α → Cell α) : Store α :=
  { s with cell := Function.update s.cell a ((s.cell a).map f) }

def childOf (s : Store α) (side : Side) (a : Nat) : Option Nat := (s.cell a).bind (Cell.child side)

def parentOf (s : Store α) (a : Nat) : Option Nat := (s.cell a).bind Cell.parent

/-- Assignments to the cell that a pointer leads to, unless it is null. -/
def modify? (s : Store α) (o : Option Nat) (f : Cell α → Cell α) : Store α :=
  match o with
  | none => s
  | some a => s.modify a f

/-- The pointer of the parent to its child `v`, or the root pointer, goes to `u`. -/
def replaceChild (s : Store α) (parent : Option Nat) (v u : Nat) : Store α :=
  match parent with
  | none => { s with root := some u }
  | some p => s.modify p (Cell.setChild (if s.childOf .left p = some v then .left else .right) (some u))

/-- The rotation at `v` towards a side: the child on the other side comes up. -/
def rotate (side : Side) (v : Nat) (s : Store α) : Store α :=
  match s.childOf (other side) v with
  | none => s
  | some u =>
    let inner := s.childOf side u
    let s := s.modify v (Cell.setChild (other side) inner)
    let s := s.modify? inner (Cell.setParent (some v))
    let parent := s.parentOf v
    let s := s.modify u (Cell.setParent parent)
    let s := s.replaceChild parent v u
    let s := s.modify u (Cell.setChild side (some v))
    s.modify v (Cell.setParent (some u))

end Store

/-! ## The tree in the memory -/

/-- The pointer to a tree. -/
def addr (t : AddrTree α) : Option Nat := t.root?.map Prod.fst

/-- The pointer to the parent at the end of a path. -/
def above (p : AddrPath α) : Option Nat := p.head?.map fun f => f.val.1

@[simp] theorem addr_nil : addr (.nil : AddrTree α) = none := rfl

@[simp] theorem addr_node (l : AddrTree α) (a : Nat × α) (r : AddrTree α) : addr (.node l a r) = some a.1 := rfl

@[simp] theorem above_nil : above ([] : AddrPath α) = none := rfl

@[simp] theorem above_cons (f : Frame (Nat × α)) (p : AddrPath α) : above (f :: p) = some f.val.1 := rfl

@[simp] theorem addr_fill (f : Frame (Nat × α)) (t : AddrTree α) : addr (f.fill t) = some f.val.1 := by
  unfold Frame.fill
  cases f.side with
  | left => rfl
  | right => rfl

/-- The cells of a tree with the given parent are in the memory. -/
def InMemory (cell : Nat → Option (Cell α)) : Option Nat → AddrTree α → Prop
  | _, .nil => True
  | parent, .node l a r =>
    cell a.1 = some ⟨a.2, addr l, addr r, parent⟩ ∧ InMemory cell (some a.1) l ∧ InMemory cell (some a.1) r

/-- The cell of a frame with the pointer `hole` on its path. -/
def frameCell (f : Frame (Nat × α)) (hole parent : Option Nat) : Cell α :=
  match f.side with
  | .left => ⟨f.val.2, hole, addr f.sibling, parent⟩
  | .right => ⟨f.val.2, addr f.sibling, hole, parent⟩

/-- The cells of a path and of what hangs off it. -/
def PathInMemory (cell : Nat → Option (Cell α)) : Option Nat → AddrPath α → Prop
  | _, [] => True
  | hole, f :: p =>
    cell f.val.1 = some (frameCell f hole (above p)) ∧ InMemory cell (some f.val.1) f.sibling ∧
      PathInMemory cell (some f.val.1) p

/-- The addresses of a tree, and of a path with what hangs off it. -/
def addrs (t : AddrTree α) : List Nat := t.inorder.map Prod.fst

def pathAddrs (p : AddrPath α) : List Nat := p.flatMap fun f => f.val.1 :: addrs f.sibling

/-- The store is the tree. -/
structure Represents (s : Store α) (t : AddrTree α) : Prop where
  root : s.root = addr t
  cells : InMemory s.cell none t
  nodup : (addrs t).Nodup
  fresh : ∀ a ∈ addrs t, a < s.next

theorem represents_empty : Represents (Store.empty : Store α) .nil :=
  ⟨rfl, trivial, List.nodup_nil, by intro a ha; cases ha⟩

section

variable {cell cell' : Nat → Option (Cell α)} {parent hole : Option Nat} {t l r : AddrTree α} {p : AddrPath α}
  {f : Frame (Nat × α)}

@[simp] theorem addrs_nil : addrs (.nil : AddrTree α) = [] := rfl

theorem addrs_node {a : Nat × α} : addrs (.node l a r) = addrs l ++ a.1 :: addrs r := by
  unfold addrs
  rw [BinTree.inorder, List.map_append, List.map_cons]

theorem addr_mem {a : Nat} (h : addr t = some a) : a ∈ addrs t := by
  cases t with
  | nil => cases h
  | node l b r =>
    cases h
    rw [addrs_node]
    simp

theorem addrs_fill_perm (f : Frame (Nat × α)) (t : AddrTree α) :
    (addrs (f.fill t)).Perm (addrs t ++ (f.val.1 :: addrs f.sibling)) := by
  obtain ⟨side, a, sib⟩ := f
  cases side with
  | left =>
    show (addrs (.node t a sib)).Perm _
    rw [addrs_node]
  | right =>
    show (addrs (.node sib a t)).Perm _
    rw [addrs_node]
    refine List.perm_append_comm.trans ?_
    rw [List.cons_append]
    exact List.perm_middle.symm

theorem addrs_plug_perm (p : AddrPath α) (t : AddrTree α) : (addrs (plug p t)).Perm (addrs t ++ pathAddrs p) := by
  induction p generalizing t with
  | nil =>
    show (addrs t).Perm (addrs t ++ [])
    rw [List.append_nil]
  | cons f p ih =>
    refine (ih (f.fill t)).trans ?_
    refine ((addrs_fill_perm f t).append_right _).trans ?_
    show (addrs t ++ (f.val.1 :: addrs f.sibling) ++ pathAddrs p).Perm
      (addrs t ++ ((f.val.1 :: addrs f.sibling) ++ pathAddrs p))
    rw [List.append_assoc]

/-- Cells that are not those of the tree do not matter. -/
theorem InMemory.congr (h : InMemory cell parent t) (heq : ∀ a ∈ addrs t, cell' a = cell a) :
    InMemory cell' parent t := by
  induction t generalizing parent with
  | nil => exact trivial
  | node l a r ihl ihr =>
    rw [addrs_node] at heq
    obtain ⟨ha, hl, hr⟩ := h
    refine ⟨?_, ihl hl ?_, ihr hr ?_⟩
    · rw [heq a.1 (by simp)]
      exact ha
    · intro b hb
      exact heq b (by simp [hb])
    · intro b hb
      exact heq b (by simp [hb])

theorem PathInMemory.congr (h : PathInMemory cell hole p) (heq : ∀ a ∈ pathAddrs p, cell' a = cell a) :
    PathInMemory cell' hole p := by
  induction p generalizing hole with
  | nil => exact trivial
  | cons f p ih =>
    obtain ⟨hf, hs, hp⟩ := h
    have hmem : ∀ a, a ∈ f.val.1 :: addrs f.sibling ∨ a ∈ pathAddrs p → cell' a = cell a := by
      intro a ha
      exact heq a (List.mem_append.mpr ha)
    refine ⟨?_, ?_, ?_⟩
    · rw [hmem f.val.1 (.inl (by simp))]
      exact hf
    · exact hs.congr fun a ha => hmem a (.inl (by simp [ha]))
    · exact ih hp fun a ha => hmem a (.inr ha)

theorem inMemory_fill : InMemory cell parent (f.fill t) ↔
    cell f.val.1 = some (frameCell f (addr t) parent) ∧ InMemory cell (some f.val.1) f.sibling ∧
      InMemory cell (some f.val.1) t := by
  obtain ⟨side, a, sib⟩ := f
  cases side with
  | left =>
    show cell a.1 = _ ∧ InMemory cell _ t ∧ InMemory cell _ sib ↔ _
    exact and_congr_right' and_comm
  | right => exact Iff.rfl

/-- A whole tree is a path and the tree at its end. -/
theorem inMemory_plug : InMemory cell none (plug p t) ↔ PathInMemory cell (addr t) p ∧
    InMemory cell (above p) t := by
  induction p generalizing t with
  | nil =>
    show InMemory cell none t ↔ True ∧ InMemory cell none t
    rw [true_and]
  | cons f p ih =>
    show InMemory cell none (plug p (f.fill t)) ↔ _
    rw [ih, addr_fill, inMemory_fill]
    show _ ↔ (cell f.val.1 = some (frameCell f (addr t) (above p)) ∧ InMemory cell (some f.val.1) f.sibling ∧
      PathInMemory cell (some f.val.1) p) ∧ InMemory cell (some f.val.1) t
    tauto

/-- Where the whole tree starts. -/
theorem addr_plug (p : AddrPath α) (h : addr t = addr r) : addr (plug p t) = addr (plug p r) := by
  induction p generalizing t r with
  | nil => exact h
  | cons f p ih => exact ih ((addr_fill f t).trans (addr_fill f r).symm)

theorem addr_plug_cons : addr (plug (f :: p) t) = addr (plug (f :: p) r) :=
  addr_plug p ((addr_fill f t).trans (addr_fill f r).symm)

end

/-! ## Assignments -/

section

variable {s : Store α} {f : Cell α → Cell α} {a b : Nat}

@[simp] theorem modify_root : (s.modify a f).root = s.root := rfl

@[simp] theorem modify_next : (s.modify a f).next = s.next := rfl

theorem modify_cell (s : Store α) (a b : Nat) (f : Cell α → Cell α) :
    (s.modify a f).cell b = if b = a then (s.cell a).map f else s.cell b := by
  unfold Store.modify
  dsimp only
  by_cases h : b = a
  · rw [if_pos h, h, Function.update_self]
  · rw [if_neg h, Function.update_of_ne h]

theorem modify_other (h : b ≠ a) : (s.modify a f).cell b = s.cell b := by
  rw [modify_cell, if_neg h]

theorem modify_same {c : Cell α} (h : s.cell a = some c) : (s.modify a f).cell a = some (f c) := by
  rw [modify_cell, if_pos rfl, h]
  rfl

theorem childOf_of {c : Cell α} (h : s.cell a = some c) (side : Side) : s.childOf side a = c.child side := by
  unfold Store.childOf
  rw [h]
  rfl

theorem parentOf_of {c : Cell α} (h : s.cell a = some c) : s.parentOf a = c.parent := by
  unfold Store.parentOf
  rw [h]
  rfl

theorem modify?_cell (s : Store α) (o : Option Nat) (b : Nat) (f : Cell α → Cell α) :
    (s.modify? o f).cell b = if o = some b then (s.cell b).map f else s.cell b := by
  cases o with
  | none => rfl
  | some a =>
    show (s.modify a f).cell b = _
    rw [modify_cell]
    by_cases h : b = a
    · subst h
      rw [if_pos rfl, if_pos rfl]
    · rw [if_neg h, if_neg (fun heq => h (Option.some.inj heq).symm)]

theorem replaceChild_cell (s : Store α) (parent : Option Nat) (v u b : Nat) :
    (s.replaceChild parent v u).cell b =
      if parent = some b then
        (s.cell b).map (Cell.setChild (if s.childOf .left b = some v then .left else .right) (some u))
      else s.cell b := by
  cases parent with
  | none => rfl
  | some p =>
    show (s.modify p _).cell b = _
    rw [modify_cell]
    by_cases h : b = p
    · subst h
      rw [if_pos rfl, if_pos rfl]
    · rw [if_neg h, if_neg (fun heq => h (Option.some.inj heq).symm)]

theorem modify?_root (s : Store α) (o : Option Nat) (f : Cell α → Cell α) :
    (s.modify? o f).root = s.root ∧ (s.modify? o f).next = s.next := by
  cases o with
  | none => exact ⟨rfl, rfl⟩
  | some a => exact ⟨rfl, rfl⟩

theorem replaceChild_root (s : Store α) (parent : Option Nat) (v u : Nat) :
    (s.replaceChild parent v u).root = (if parent = none then some u else s.root) ∧
      (s.replaceChild parent v u).next = s.next := by
  cases parent with
  | none => exact ⟨rfl, rfl⟩
  | some p => exact ⟨rfl, rfl⟩

/-- The tree with another parent: one pointer of its first cell changes. -/
theorem InMemory.reparent {cell cell' : Nat → Option (Cell α)} {parent parent' : Option Nat} {t : AddrTree α}
    (h : InMemory cell parent t) (hnodup : (addrs t).Nodup)
    (hroot : ∀ a, addr t = some a → cell' a = (cell a).map (Cell.setParent parent'))
    (hrest : ∀ a ∈ addrs t, addr t ≠ some a → cell' a = cell a) : InMemory cell' parent' t := by
  cases t with
  | nil => exact trivial
  | node l a r =>
    obtain ⟨ha, hl, hr⟩ := h
    rw [addrs_node] at hnodup hrest
    obtain ⟨-, hcons, hdisj⟩ := List.nodup_append.mp hnodup
    have hnotr := (List.nodup_cons.mp hcons).1
    refine ⟨?_, hl.congr ?_, hr.congr ?_⟩
    · rw [hroot a.1 rfl, ha]
      rfl
    · intro b hb
      apply hrest b (by simp [hb])
      intro heq
      exact hdisj b hb a.1 (by simp) (Option.some.inj heq).symm
    · intro b hb
      apply hrest b (by simp [hb])
      intro heq
      cases heq
      exact hnotr hb

/-- Two subtrees of the same cells are interchangeable below a path. -/
theorem addrs_plug_congr (p : AddrPath α) {t u : AddrTree α} (h : addrs t = addrs u) :
    addrs (plug p t) = addrs (plug p u) :=
  inorder_plug_map p h

/-- The path with another node at its end: one pointer of the parent's cell changes. -/
theorem PathInMemory.rehang {cell cell' : Nat → Option (Cell α)} {hole hole' : Option Nat} {p : AddrPath α}
    (h : PathInMemory cell hole p) (hnodup : (pathAddrs p).Nodup)
    (hroot : ∀ f q, p = f :: q → cell' f.val.1 = (cell f.val.1).map (Cell.setChild f.side hole'))
    (hrest : ∀ a ∈ pathAddrs p, above p ≠ some a → cell' a = cell a) : PathInMemory cell' hole' p := by
  cases p with
  | nil => exact trivial
  | cons f q =>
    obtain ⟨hf, hs, hq⟩ := h
    have hnodup' : (f.val.1 :: (addrs f.sibling ++ pathAddrs q)).Nodup := hnodup
    have hnot := (List.nodup_cons.mp hnodup').1
    have hmem : ∀ a, a ∈ addrs f.sibling ∨ a ∈ pathAddrs q → cell' a = cell a := by
      intro a ha
      have ha' := List.mem_append.mpr ha
      apply hrest a
      · show a ∈ f.val.1 :: (addrs f.sibling ++ pathAddrs q)
        exact List.mem_cons_of_mem _ ha'
      · intro heq
        cases heq
        exact hnot ha'
    refine ⟨?_, hs.congr fun a ha => hmem a (.inl ha), hq.congr fun a ha => hmem a (.inr ha)⟩
    rw [hroot f q rfl, hf]
    obtain ⟨side, a, sib⟩ := f
    cases side with
    | left => rfl
    | right => rfl

theorem child_frameCell {f : Frame (Nat × α)} {side : Side} {hole parent : Option Nat} (h : f.side = side) :
    (frameCell f hole parent).child side = hole ∧ (frameCell f hole parent).child (other side) = addr f.sibling := by
  obtain ⟨fside, a, sib⟩ := f
  cases h
  cases fside with
  | left => exact ⟨rfl, rfl⟩
  | right => exact ⟨rfl, rfl⟩

theorem parent_frameCell {f : Frame (Nat × α)} {hole parent : Option Nat} :
    (frameCell f hole parent).parent = parent := by
  unfold frameCell
  cases f.side with
  | left => rfl
  | right => rfl

theorem parent_setChild (side : Side) (o : Option Nat) (c : Cell α) : (Cell.setChild side o c).parent = c.parent := by
  cases side with
  | left => rfl
  | right => rfl

theorem setChild_frameCell {f : Frame (Nat × α)} {side : Side} {hole hole' parent parent' : Option Nat}
    (h : f.side = side) :
    Cell.setParent parent' (Cell.setChild side hole' (frameCell f hole parent)) = frameCell f hole' parent' ∧
      Cell.setChild side hole' (Cell.setParent parent' (frameCell f hole parent)) = frameCell f hole' parent' := by
  obtain ⟨fside, a, sib⟩ := f
  cases h
  cases fside with
  | left => exact ⟨rfl, rfl⟩
  | right => exact ⟨rfl, rfl⟩

end

/-! ## Rotation -/

/-- The addresses around a rotation are different. -/
structure Distinct (fu fv : Frame (Nat × α)) (p : AddrPath α) (inner : AddrTree α) : Prop where
  uv : fu.val.1 ≠ fv.val.1
  within : ∀ c ∈ addrs inner, c ≠ fu.val.1 ∧ c ≠ fv.val.1 ∧ c ∉ pathAddrs p
  below : ∀ c, c ∈ addrs fu.sibling ∨ c ∈ addrs fv.sibling →
    c ≠ fu.val.1 ∧ c ≠ fv.val.1 ∧ c ∉ addrs inner ∧ c ∉ pathAddrs p
  path : ∀ c ∈ pathAddrs p, c ≠ fu.val.1 ∧ c ≠ fv.val.1
  nodupInner : (addrs inner).Nodup
  nodupPath : (pathAddrs p).Nodup

section

variable {s : Store α} {fu fv : Frame (Nat × α)} {p : AddrPath α} {inner : AddrTree α} {side : Side}

theorem above_mem {c : Nat} (h : above p = some c) : c ∈ pathAddrs p := by
  cases p with
  | nil => cases h
  | cons f q =>
    cases h
    show f.val.1 ∈ f.val.1 :: (addrs f.sibling ++ pathAddrs q)
    simp

theorem Represents.distinct (h : Represents s (plug (fu :: fv :: p) inner)) : Distinct fu fv p inner := by
  have hnodup := (addrs_plug_perm (fu :: fv :: p) inner).nodup_iff.mp h.nodup
  have hall : (addrs inner ++ (fu.val.1 :: (addrs fu.sibling ++
      (fv.val.1 :: (addrs fv.sibling ++ pathAddrs p))))).Nodup := by
    simpa [pathAddrs] using hnodup
  obtain ⟨hinner, hrest₁, hd₁⟩ := List.nodup_append.mp hall
  obtain ⟨hu, hrest₂⟩ := List.nodup_cons.mp hrest₁
  obtain ⟨-, hrest₃, hd₂⟩ := List.nodup_append.mp hrest₂
  obtain ⟨hv, hrest₄⟩ := List.nodup_cons.mp hrest₃
  obtain ⟨-, hpath, hd₃⟩ := List.nodup_append.mp hrest₄
  simp only [List.mem_append, List.mem_cons, not_or] at hu hv
  refine ⟨hu.2.1, ?_, ?_, ?_, hinner, hpath⟩
  · intro c hc
    refine ⟨hd₁ c hc _ (by simp), hd₁ c hc _ (by simp), ?_⟩
    intro hm
    exact hd₁ c hc c (by simp [hm]) rfl
  · rintro c (hc | hc)
    · refine ⟨?_, hd₂ c hc _ (by simp), ?_, ?_⟩
      · intro heq
        exact hu.1 (heq ▸ hc)
      · intro hm
        exact hd₁ c hm c (by simp [hc]) rfl
      · intro hm
        exact hd₂ c hc c (by simp [hm]) rfl
    · refine ⟨?_, ?_, ?_, ?_⟩
      · intro heq
        exact hu.2.2.1 (heq ▸ hc)
      · intro heq
        exact hv.1 (heq ▸ hc)
      · intro hm
        exact hd₁ c hm c (by simp [hc]) rfl
      · intro hm
        exact hd₃ c hc c hm rfl
  · intro c hc
    constructor
    · intro heq
      exact hu.2.2.2 (heq ▸ hc)
    · intro heq
      exact hv.2 (heq ▸ hc)

/-- The cells after a rotation: those of the two nodes, one pointer each of the inner child and of the
parent above, and no other. -/
structure Rotated (s s' : Store α) (fu fv : Frame (Nat × α)) (p : AddrPath α) (inner : AddrTree α) : Prop where
  upper : s'.cell fu.val.1 = some (frameCell fu (some fv.val.1) (above p))
  lower : s'.cell fv.val.1 = some (frameCell fv (addr inner) (some fu.val.1))
  child : ∀ c, addr inner = some c → s'.cell c = (s.cell c).map (Cell.setParent (some fv.val.1))
  parent : ∀ f q, p = f :: q → s'.cell f.val.1 = (s.cell f.val.1).map (Cell.setChild f.side (some fu.val.1))
  same : ∀ c, c ≠ fu.val.1 → c ≠ fv.val.1 → addr inner ≠ some c → above p ≠ some c →
    s'.cell c = s.cell c
  root : s'.root = if above p = none then some fu.val.1 else s.root
  next : s'.next = s.next

theorem rotate_rotated (h : Represents s (plug (fu :: fv :: p) inner)) (hu : fu.side = side)
    (hv : fv.side = other side) :
    Rotated s (s.rotate side fv.val.1) fu fv p inner := by
  obtain ⟨⟨hcu, -, hcv, -, hp⟩, -⟩ := inMemory_plug.mp h.cells
  obtain ⟨huv, hinner, -, hpath, -, -⟩ := h.distinct
  have hinner_u : addr inner ≠ some fu.val.1 := fun heq => (hinner _ (addr_mem heq)).1 rfl
  have hinner_v : addr inner ≠ some fv.val.1 := fun heq => (hinner _ (addr_mem heq)).2.1 rfl
  have hpath_u : above p ≠ some fu.val.1 := fun heq => (hpath _ (above_mem heq)).1 rfl
  have hpath_v : above p ≠ some fv.val.1 := fun heq => (hpath _ (above_mem heq)).2 rfl
  -- the assignments, one after the other
  have hchild : s.childOf (other side) fv.val.1 = some fu.val.1 := by
    rw [childOf_of hcv]
    exact (child_frameCell hv).1
  have hinnerptr : s.childOf side fu.val.1 = addr inner := by
    rw [childOf_of hcu]
    exact (child_frameCell hu).1
  unfold Store.rotate
  rw [hchild]
  dsimp only
  rw [hinnerptr]
  generalize hs₁ : s.modify fv.val.1 (Cell.setChild (other side) (addr inner)) = s₁
  generalize hs₂ : s₁.modify? (addr inner) (Cell.setParent (some fv.val.1)) = s₂
  have hv₂ : s₂.cell fv.val.1 = some (Cell.setChild (other side) (addr inner)
      (frameCell fv (some fu.val.1) (above p))) := by
    rw [← hs₂, modify?_cell, if_neg hinner_v, ← hs₁]
    exact modify_same hcv
  have hother₂ : ∀ c, c ≠ fv.val.1 →
      s₂.cell c = if addr inner = some c then (s.cell c).map (Cell.setParent (some fv.val.1)) else s.cell c := by
    intro c hc
    rw [← hs₂, modify?_cell, ← hs₁, modify_other hc]
  have hparent : s₂.parentOf fv.val.1 = above p := by
    rw [parentOf_of hv₂, parent_setChild, parent_frameCell]
  rw [hparent]
  generalize hs₃ : s₂.modify fu.val.1 (Cell.setParent (above p)) = s₃
  have hother₃ : ∀ c, c ≠ fu.val.1 → s₃.cell c = s₂.cell c := by
    intro c hc
    rw [← hs₃, modify_other hc]
  have hu₃ : s₃.cell fu.val.1 = some (Cell.setParent (above p) (frameCell fu (addr inner) (some fv.val.1))) := by
    rw [← hs₃]
    apply modify_same
    rw [hother₂ _ huv, if_neg hinner_u]
    exact hcu
  generalize hs₄ : s₃.replaceChild (above p) fv.val.1 fu.val.1 = s₄
  have hother₄ : ∀ c, above p ≠ some c → s₄.cell c = s₃.cell c := by
    intro c hc
    rw [← hs₄, replaceChild_cell, if_neg hc]
  have hhead₄ : ∀ f q, p = f :: q → s₄.cell f.val.1 = (s.cell f.val.1).map
      (Cell.setChild f.side (some fu.val.1)) := by
    intro f q hpq
    have hmem : f.val.1 ∈ pathAddrs p := above_mem (by rw [hpq]; rfl)
    obtain ⟨hfu, hfv⟩ := hpath _ hmem
    have hcell₃ : s₃.cell f.val.1 = s.cell f.val.1 := by
      rw [hother₃ _ hfu, hother₂ _ hfv, if_neg (fun heq => (hinner _ (addr_mem heq)).2.2 hmem)]
    have hcf : s.cell f.val.1 = some (frameCell f (some fv.val.1) (above q)) := by
      rw [hpq] at hp
      exact hp.1
    have hside : (if s₃.childOf .left f.val.1 = some fv.val.1 then Side.left else Side.right) = f.side := by
      rw [childOf_of (hcell₃.trans hcf)]
      cases hf : f.side with
      | left => rw [(child_frameCell hf).1, if_pos rfl]
      | right =>
        rw [show Side.left = other Side.right from rfl, (child_frameCell hf).2, if_neg]
        intro heq
        refine (hpath fv.val.1 ?_).2 rfl
        rw [hpq]
        exact List.mem_append_left _ (List.mem_cons_of_mem _ (addr_mem heq))
    rw [← hs₄, replaceChild_cell, if_pos (by rw [hpq]; rfl), hcell₃, hside]
  generalize hs₅ : s₄.modify fu.val.1 (Cell.setChild side (some fv.val.1)) = s₅
  generalize hs₆ : s₅.modify fv.val.1 (Cell.setParent (some fu.val.1)) = s₆
  have hother₆ : ∀ c, c ≠ fu.val.1 → c ≠ fv.val.1 → s₆.cell c = s₄.cell c := by
    intro c hcu hcv
    rw [← hs₆, modify_other hcv, ← hs₅, modify_other hcu]
  obtain ⟨hr₄, hn₄⟩ := replaceChild_root s₃ (above p) fv.val.1 fu.val.1
  obtain ⟨hr₂, hn₂⟩ := modify?_root s₁ (addr inner) (Cell.setParent (some fv.val.1))
  rw [hs₄, ← hs₃, modify_root] at hr₄
  rw [hs₄, ← hs₃, modify_next] at hn₄
  rw [hs₂, ← hs₁, modify_root] at hr₂
  rw [hs₂, ← hs₁, modify_next] at hn₂
  refine ⟨?_, ?_, ?_, ?_, ?_, ?_, ?_⟩
  · rw [← hs₆, modify_other huv, ← hs₅, modify_same ((hother₄ _ hpath_u).trans hu₃),
      (setChild_frameCell hu).2]
  · have hcell : s₅.cell fv.val.1 =
        some (Cell.setChild (other side) (addr inner) (frameCell fv (some fu.val.1) (above p))) := by
      rw [← hs₅, modify_other huv.symm, hother₄ _ hpath_v, hother₃ _ huv.symm]
      exact hv₂
    rw [← hs₆, modify_same hcell, (setChild_frameCell hv).1]
  · intro c hc
    obtain ⟨hcu, hcv, hcp⟩ := hinner c (addr_mem hc)
    rw [hother₆ c hcu hcv, hother₄ c (fun heq => hcp (above_mem heq)), hother₃ c hcu, hother₂ c hcv, if_pos hc]
  · intro f q hpq
    obtain ⟨hfu, hfv⟩ := hpath f.val.1 (above_mem (by rw [hpq]; rfl))
    rw [hother₆ _ hfu hfv]
    exact hhead₄ f q hpq
  · intro c hcu hcv hci hcp
    rw [hother₆ c hcu hcv, hother₄ c hcp, hother₃ c hcu, hother₂ c hcv, if_neg hci]
  · rw [← hs₆, modify_root, ← hs₅, modify_root, hr₄, hr₂]
  · rw [← hs₆, modify_next, ← hs₅, modify_next, hn₄, hn₂]

/-- The two nodes change places. -/
theorem addrs_swap_perm (fu fv : Frame (Nat × α)) (p : AddrPath α) (inner : AddrTree α) :
    (addrs (plug (fv :: fu :: p) inner)).Perm (addrs (plug (fu :: fv :: p) inner)) := by
  refine (addrs_plug_perm _ _).trans (List.Perm.trans ?_ (addrs_plug_perm _ _).symm)
  refine List.Perm.append_left _ ?_
  show ((fv.val.1 :: addrs fv.sibling) ++ ((fu.val.1 :: addrs fu.sibling) ++ pathAddrs p)).Perm
    ((fu.val.1 :: addrs fu.sibling) ++ ((fv.val.1 :: addrs fv.sibling) ++ pathAddrs p))
  rw [← List.append_assoc, ← List.append_assoc]
  exact List.perm_append_comm.append_right _

/-- A rotation exchanges two frames that lead to different sides: the lower one comes up, with what hangs at
the path's end passed from one to the other. -/
theorem Represents.swap (h : Represents s (plug (fu :: fv :: p) inner)) (hu : fu.side = side)
    (hv : fv.side = other side) : Represents (s.rotate side fv.val.1) (plug (fv :: fu :: p) inner) := by
  obtain ⟨⟨-, hsu, -, hsv, hp⟩, hin⟩ := inMemory_plug.mp h.cells
  have hd := h.distinct
  obtain ⟨hupper, hlower, hchild, hparent, hsame, hroot, hnext⟩ := rotate_rotated h hu hv
  have hperm := addrs_swap_perm fu fv p inner
  have hbelow : ∀ c, c ∈ addrs fu.sibling ∨ c ∈ addrs fv.sibling →
      (s.rotate side fv.val.1).cell c = s.cell c := by
    intro c hc
    obtain ⟨hcu, hcv, hci, hcp⟩ := hd.below c hc
    exact hsame c hcu hcv (fun heq => hci (addr_mem heq)) fun heq => hcp (above_mem heq)
  refine ⟨?_, inMemory_plug.mpr ⟨⟨hlower, ?_, hupper, ?_, ?_⟩, ?_⟩, hperm.nodup_iff.mpr h.nodup, ?_⟩
  · rw [hroot]
    cases p with
    | nil =>
      rw [above_nil, if_pos rfl]
      exact (addr_fill fu _).symm
    | cons f q =>
      rw [if_neg (by simp), h.root]
      show addr (plug (f :: q) _) = addr (plug (f :: q) _)
      exact addr_plug_cons
  · exact hsv.congr fun c hc => hbelow c (.inr hc)
  · exact hsu.congr fun c hc => hbelow c (.inl hc)
  · refine hp.rehang hd.nodupPath hparent ?_
    intro c hc hne
    obtain ⟨hcu, hcv⟩ := hd.path c hc
    exact hsame c hcu hcv (fun heq => (hd.within c (addr_mem heq)).2.2 hc) hne
  · refine hin.reparent hd.nodupInner hchild ?_
    intro c hc hne
    obtain ⟨hcu, hcv, hcp⟩ := hd.within c hc
    exact hsame c hcu hcv hne fun heq => hcp (above_mem heq)
  · rw [hnext]
    intro c hc
    exact h.fresh c (hperm.mem_iff.mp hc)

/-- Rotating at a node without a child to come up changes nothing. -/
theorem rotate_leaf {v : Nat} (h : s.childOf (other side) v = none) : s.rotate side v = s := by
  unfold Store.rotate
  rw [h]

theorem Represents.leftRotate {l r : AddrTree α} {a : Nat × α} (h : Represents s (plug p (.node l a r))) :
    Represents (s.rotate .left a.1) (plug p (BinTree.node l a r).leftRotate) := by
  cases r with
  | nil =>
    obtain ⟨-, hcell, -⟩ := inMemory_plug.mp h.cells
    rw [rotate_leaf (by rw [childOf_of hcell]; rfl)]
    exact h
  | node b u c => exact @Represents.swap _ _ ⟨.left, u, c⟩ ⟨.right, a, l⟩ _ _ .left h rfl rfl

theorem Represents.rightRotate {l r : AddrTree α} {a : Nat × α} (h : Represents s (plug p (.node l a r))) :
    Represents (s.rotate .right a.1) (plug p (BinTree.node l a r).rightRotate) := by
  cases l with
  | nil =>
    obtain ⟨-, hcell, -⟩ := inMemory_plug.mp h.cells
    rw [rotate_leaf (by rw [childOf_of hcell]; rfl)]
    exact h
  | node b u c => exact @Represents.swap _ _ ⟨.right, u, b⟩ ⟨.left, a, r⟩ _ _ .right h rfl rfl

end

/-! ## Pointers and values -/

/-- The frame of the same node over its other child. -/
def flip (f : Frame β) (t : BinTree β) : Frame β := { side := other f.side, val := f.val, sibling := t }

theorem plug_flip (f : Frame β) (p : Path β) (t : BinTree β) : plug (flip f t :: p) f.sibling = plug (f :: p) t := by
  obtain ⟨side, a, sib⟩ := f
  cases side with
  | left => rfl
  | right => rfl

section

variable {s : Store α} {p : AddrPath α} {l r t : AddrTree α} {a : Nat × α} {f : Frame (Nat × α)}

theorem Represents.node_cell (h : Represents s (plug p (.node l a r))) :
    s.cell a.1 = some ⟨a.2, addr l, addr r, above p⟩ :=
  (inMemory_plug.mp h.cells).2.1

theorem Represents.frame_cell (h : Represents s (plug (f :: p) t)) :
    s.cell f.val.1 = some (frameCell f (addr t) (above p)) :=
  (inMemory_plug.mp h.cells).1.1

theorem Represents.parentOf_frame (h : Represents s (plug (f :: p) t)) : s.parentOf f.val.1 = above p := by
  rw [parentOf_of h.frame_cell, parent_frameCell]

theorem Represents.parentOf_addr {x : Nat} (h : Represents s (plug p t)) (hx : addr t = some x) :
    s.parentOf x = above p := by
  cases t with
  | nil => cases hx
  | node l a r =>
    cases hx
    rw [parentOf_of h.node_cell]

/-- A node is the child on a side exactly when the path goes on there. -/
theorem Represents.childOf_eq {x : Nat} (h : Represents s (plug (f :: p) t)) (hx : addr t = some x) (side : Side) :
    s.childOf side f.val.1 = some x ↔ f.side = side := by
  rw [childOf_of h.frame_cell]
  constructor
  · intro hchild
    by_contra hne
    have hside : side = other f.side := eq_other hne
    rw [hside, (child_frameCell rfl).2] at hchild
    -- the sibling would start at the same address
    have hnodup := (addrs_plug_perm (f :: p) t).nodup_iff.mp h.nodup
    refine (List.nodup_append.mp hnodup).2.2 x (addr_mem hx) x ?_ rfl
    exact List.mem_append_left _ (List.mem_cons_of_mem _ (addr_mem hchild))
  · intro hside
    rw [(child_frameCell hside).1, hx]

/-- The test by which the code tells the side. -/
theorem Represents.childSide {x : Nat} (h : Represents s (plug (f :: p) t)) (hx : addr t = some x) :
    (if s.childOf .left f.val.1 = some x then Side.left else .right) = f.side := by
  have hiff := h.childOf_eq hx .left
  cases hf : f.side with
  | left => exact if_pos (hiff.mpr hf)
  | right =>
    refine if_neg fun hchild => ?_
    rw [hiff.mp hchild] at hf
    cases hf

/-- The other child of a node on the path. -/
theorem Represents.sibling_eq (h : Represents s (plug (f :: p) t)) :
    s.childOf (other f.side) f.val.1 = addr f.sibling := by
  rw [childOf_of h.frame_cell]
  exact (child_frameCell rfl).2

theorem addr_plug_cons_mem {x : Nat} (h : addr (plug (f :: p) t) = some x) : x ∈ pathAddrs (f :: p) := by
  induction p generalizing f t with
  | nil =>
    have hf : f.val.1 = x := Option.some.inj ((addr_fill f t).symm.trans h)
    exact hf ▸ List.mem_cons_self ..
  | cons g p ih => exact List.mem_append_right _ (ih h)

/-- A node with a parent is not the root. -/
theorem Represents.root_ne {x : Nat} (h : Represents s (plug (f :: p) t)) (hx : addr t = some x) :
    s.root ≠ some x := by
  intro hroot
  have hnodup := (addrs_plug_perm (f :: p) t).nodup_iff.mp h.nodup
  refine (List.nodup_append.mp hnodup).2.2 x (addr_mem hx) x ?_ rfl
  exact addr_plug_cons_mem (h.root.symm.trans hroot)

/-- The address of a node is that of no other. -/
theorem Represents.apart (h : Represents s (plug p (.node l a r))) :
    (∀ c, c ∈ addrs l ∨ c ∈ addrs r → c ≠ a.1) ∧ ∀ c ∈ pathAddrs p, c ≠ a.1 := by
  have hnodup := (addrs_plug_perm p (.node l a r)).nodup_iff.mp h.nodup
  rw [addrs_node] at hnodup
  obtain ⟨hnode, -, hpath⟩ := List.nodup_append.mp hnodup
  obtain ⟨-, hr, hl⟩ := List.nodup_append.mp hnode
  refine ⟨?_, fun c hc heq => hpath a.1 (by simp) c hc heq.symm⟩
  rintro c (hc | hc) heq
  · exact hl c hc a.1 (by simp) heq
  · exact (List.nodup_cons.mp hr).1 (heq ▸ hc)

/-- An assignment to the value of a node. -/
theorem Represents.setVal (g : α → α) (h : Represents s (plug p (.node l a r))) :
    Represents (s.modify a.1 (Cell.setVal g)) (plug p (.node l (a.1, g a.2) r)) := by
  obtain ⟨hp, hcell, hl, hr⟩ := inMemory_plug.mp h.cells
  obtain ⟨hbelow, hpath⟩ := h.apart
  have haddrs : addrs (plug p (.node l (a.1, g a.2) r)) = addrs (plug p (.node l a r)) :=
    addrs_plug_congr p (by rw [addrs_node, addrs_node])
  refine ⟨?_, inMemory_plug.mpr ⟨?_, ?_, ?_, ?_⟩, haddrs ▸ h.nodup, haddrs ▸ h.fresh⟩
  · rw [modify_root, h.root]
    exact addr_plug p rfl
  · exact hp.congr fun c hc => modify_other (hpath c hc)
  · rw [modify_same hcell]
    rfl
  · exact hl.congr fun c hc => modify_other (hbelow c (.inl hc))
  · exact hr.congr fun c hc => modify_other (hbelow c (.inr hc))

/-- The same for a node above. -/
theorem Represents.setFrameVal (g : α → α) {f : Frame (Nat × α)} (h : Represents s (plug (f :: p) t)) :
    Represents (s.modify f.val.1 (Cell.setVal g)) (plug ({ f with val := (f.val.1, g f.val.2) } :: p) t) := by
  obtain ⟨side, b, sib⟩ := f
  cases side with
  | left => exact @Represents.setVal _ s p t sib b g h
  | right => exact @Represents.setVal _ s p sib t b g h

end

end LinkedTree
