import Kvdb.DataStructures.Trees
import Kvdb.Lib.LinkedWalk
import Mathlib.Data.Nat.Log

/-!
# The red-black tree in memory

`data_structures/red_black_tree.cpp` on cells with parent pointers.  The loop of
`balance` on the cells is the loop on the tree (`balanceFrom_refines`), and leaves
through its condition; the loop on the tree keeps the colours and the black
height (`balanced_balanceLoop`).

    insertAll fuel entries .empty = some (exits, s)  and  validate s = true     (validate_insertAll)
-/

namespace Kvdb

open SearchTree LinkedTree

/-! ## The algorithm on cells -/

namespace LinkedRBTree

open Kvdb.RBTree (Color Node)

abbrev Memory := Store Node

/-- How the loop of `balance` is left. -/
inductive Exit where
  | condition
  | noGrandparent
  | afterRotation
deriving DecidableEq, Repr

def setColor (c : Color) : Cell Node → Cell Node := Cell.setVal fun n => { n with color := c }

/-- The pointer is not null and the node there is red. -/
def isRedAt (s : Memory) (o : Option Nat) : Bool := (o.bind s.cell).any fun c => c.val.color == .red

/-- The end of a round: recolour and rotate at the grandparent. -/
def liftParent (outer : Side) (parent grandparent : Nat) (s : Memory) : Memory :=
  ((s.modify parent (setColor .black)).modify grandparent (setColor .red)).rotate (other outer) grandparent

/-- A round of the loop when the parent is red and its parent's child on the side `outer`; the next `v`. -/
def fixUp (outer : Side) (v parent grandparent : Nat) (s : Memory) : Except Exit Nat × Memory :=
  let uncle := s.childOf (other outer) grandparent
  if isRedAt s uncle then
    let s := s.modify parent (setColor .black)
    let s := s.modify? uncle (setColor .black)
    (.ok grandparent, s.modify grandparent (setColor .red))
  else if s.childOf (other outer) parent = some v then
    let v := parent
    let s := s.rotate outer v
    match s.parentOf v with
    | none => (.error .afterRotation, s)
    | some parent =>
      match s.parentOf parent with
      | none => (.error .afterRotation, s)
      | some grandparent => (.ok v, liftParent outer parent grandparent s)
  else (.ok v, liftParent outer parent grandparent s)

/-- The loop of `balance`, and how it was left; `none` when the rounds do not suffice. -/
def balanceFrom : Nat → Nat → Memory → Option (Exit × Memory)
  | 0, _, _ => none
  | fuel + 1, v, s =>
    match s.parentOf v with
    | none => some (.condition, s)
    | some parent =>
      if s.root = some v || !isRedAt s (some parent) then some (.condition, s)
      else
        match s.parentOf parent with
        | none => some (.noGrandparent, s)
        | some grandparent =>
          match fixUp (if s.childOf .left grandparent = some parent then .left else .right) v parent grandparent s with
          | (.ok v, s) => balanceFrom fuel v s
          | (.error e, s) => some (e, s)

/-- `balance`: the root is black in the end. -/
def balance (fuel v : Nat) (s : Memory) : Option (Exit × Memory) :=
  (balanceFrom fuel v s).map fun (e, s) => (e, s.modify? s.root (setColor .black))

/-- `RBTree::insert`; an accepted insertion says how the loop was left. -/
def insert (fuel : Nat) (entry : InternalRecord) (s : Memory) : Option (Except Status (Exit × Memory)) :=
  let v : Node := { record := entry, color := .red }
  (s.findPlace (nodeBefore Node.record) v fuel s.root none).bind fun
    | .duplicate => some (.error (duplicateEntry entry))
    | .below parent =>
      (balance fuel s.next (s.attach (nodeBefore Node.record) v parent)).map .ok

/-- Insertions one after the other; the exits of all of them. -/
def insertAll (fuel : Nat) : List InternalRecord → Memory → Option (List Exit × Memory)
  | [], s => some ([], s)
  | entry :: entries, s =>
    (insert fuel entry s).bind fun
      | .error _ => insertAll fuel entries s
      | .ok (e, s) => (insertAll fuel entries s).map fun (es, s) => (e :: es, s)

/-! ## Validators -/

def rootIsBlack (s : Memory) : Bool :=
  match s.root.bind s.cell with
  | none => true
  | some c => c.val.color == .black

def noRedNodeHasRedChild (s : Memory) (fuel : Nat) : Option Bool :=
  s.fold true
    (fun _ c left right =>
      if c.val.color = .red ∧ (isRedAt s c.left ∨ isRedAt s c.right) then false else left && right)
    fuel s.root

def subtreeBlackHeightInfo (s : Memory) (fuel : Nat) (node : Option Nat) : Option (Bool × Int) :=
  s.fold (true, 1)
    (fun _ c left right =>
      if !left.1 || !right.1 then (false, -1)
      else if left.2 ≠ right.2 then (false, -1)
      else (true, left.2 + if c.val.color = .black then 1 else 0))
    fuel node

def validate (s : Memory) (fuel : Nat) : Option Bool := do
  let reds ← noRedNodeHasRedChild s fuel
  let order ← s.orderingCorrect (nodeBefore Node.record) fuel
  let black ← subtreeBlackHeightInfo s fuel s.root
  let links ← s.parentLinksValid fuel
  return rootIsBlack s && reds && order && black.1 && links

/-- The number of nodes on the longest way down. -/
def height (s : Memory) (fuel : Nat) : Option Nat := s.fold 0 (fun _ _ left right => max left right + 1) fuel s.root

end LinkedRBTree

/-! ## Colours and black height -/

namespace RBTree

/-- The black nodes on every way down are `n`, and no red node has a red child. -/
inductive Balanced : BinTree Node → Nat → Prop
  | nil : Balanced .nil 0
  | red {l r : BinTree Node} {a : Node} {n : Nat} (hcolor : a.color = .red) (hl : Balanced l n) (hr : Balanced r n)
      (hleft : isRed l = false) (hright : isRed r = false) : Balanced (.node l a r) n
  | black {l r : BinTree Node} {a : Node} {n : Nat} (hcolor : a.color = .black) (hl : Balanced l n)
      (hr : Balanced r n) : Balanced (.node l a r) (n + 1)

/-- The end of the path is below a red node. -/
def parentRed (p : Path Node) : Bool := p.head?.any fun f => f.val.color == .red

/-- A tree with `n` black nodes on every way down fits at the end of the path. -/
inductive BalancedPath : Path Node → Nat → Prop
  | nil {n : Nat} : BalancedPath [] n
  | red {f : Frame Node} {p : Path Node} {n : Nat} (hcolor : f.val.color = .red) (hs : Balanced f.sibling n)
      (hsibling : isRed f.sibling = false) (hparent : parentRed p = false) (hp : BalancedPath p n) :
      BalancedPath (f :: p) n
  | black {f : Frame Node} {p : Path Node} {n : Nat} (hcolor : f.val.color = .black) (hs : Balanced f.sibling n)
      (hp : BalancedPath p (n + 1)) : BalancedPath (f :: p) n

/-- The node at the top of the path is black. -/
def BlackRoot (p : Path Node) : Prop := ∀ f ∈ p.getLast?, f.val.color = .black

/-- What every insertion keeps. -/
structure Valid (t : BinTree Node) : Prop where
  ordered : Ordered (records t)
  root : isRed t = false
  balanced : ∃ n, Balanced t n

section

variable {t v : BinTree Node} {p rest : Path Node} {f : Frame Node} {n : Nat}

theorem color_of_not_black {c : Color} (h : ¬c = .black) : c = .red := by
  cases c with
  | red => rfl
  | black => exact absurd rfl h

@[simp] theorem isRed_fill (f : Frame Node) (t : BinTree Node) : isRed (f.fill t) = (f.val.color == .red) := by
  unfold Frame.fill
  cases f.side with
  | left => rfl
  | right => rfl

theorem balanced_fill_red (hcolor : f.val.color = .red) (hs : Balanced f.sibling n) (hsibling : isRed f.sibling = false)
    (ht : Balanced t n) (hred : isRed t = false) : Balanced (f.fill t) n := by
  unfold Frame.fill
  cases f.side with
  | left => exact .red hcolor ht hs hred hsibling
  | right => exact .red hcolor hs ht hsibling hred

theorem balanced_fill_black (hcolor : f.val.color = .black) (hs : Balanced f.sibling n) (ht : Balanced t n) :
    Balanced (f.fill t) (n + 1) := by
  unfold Frame.fill
  cases f.side with
  | left => exact .black hcolor ht hs
  | right => exact .black hcolor hs ht

theorem balanced_plug (ht : Balanced t n) (hp : BalancedPath p n) (hred : isRed t = true → parentRed p = false) :
    ∃ m, Balanced (plug p t) m := by
  induction hp generalizing t with
  | nil => exact ⟨_, ht⟩
  | @red f p n hcolor hs hsibling hparent hp ih =>
    have hblack : isRed t = false := by
      cases h : isRed t with
      | false => rfl
      | true =>
        have hnot := hred h
        simp [parentRed, hcolor] at hnot
    exact ih (balanced_fill_red hcolor hs hsibling ht hblack) fun _ => hparent
  | @black f p n hcolor hs hp ih =>
    refine ih (balanced_fill_black hcolor hs ht) ?_
    rw [isRed_fill, hcolor]
    intro h
    cases h

/-- The parts of a balanced tree at the end of a path. -/
theorem balanced_unplug {m : Nat} (h : Balanced (plug p t) m) :
    ∃ n, Balanced t n ∧ BalancedPath p n ∧ (isRed t = true → parentRed p = false) := by
  induction p generalizing t with
  | nil => exact ⟨m, h, .nil, fun _ => rfl⟩
  | cons f p ih =>
    obtain ⟨n, hfill, hp, hred⟩ := ih h
    obtain ⟨side, a, sib⟩ := f
    -- the children of the frame's node, whichever side the path goes on
    have hkids : (∃ hc : a.color = .red, Balanced t n ∧ Balanced sib n ∧ isRed t = false ∧
        isRed sib = false) ∨
        ∃ k, n = k + 1 ∧ a.color = .black ∧ Balanced t k ∧ Balanced sib k := by
      cases side with
      | left =>
        cases hfill with
        | red hcolor hl hr hleft hright => exact .inl ⟨hcolor, hl, hr, hleft, hright⟩
        | black hcolor hl hr => exact .inr ⟨_, rfl, hcolor, hl, hr⟩
      | right =>
        cases hfill with
        | red hcolor hl hr hleft hright => exact .inl ⟨hcolor, hr, hl, hright, hleft⟩
        | black hcolor hl hr => exact .inr ⟨_, rfl, hcolor, hr, hl⟩
    rcases hkids with ⟨hcolor, ht, hs, hblack, hsibling⟩ | ⟨k, rfl, hcolor, ht, hs⟩
    · refine ⟨n, ht, .red hcolor hs hsibling (hred ?_) hp, ?_⟩
      · rw [isRed_fill, hcolor]
        rfl
      · rw [hblack]
        intro h
        cases h
    · refine ⟨k, ht, .black hcolor hs hp, fun _ => ?_⟩
      unfold parentRed
      rw [List.head?_cons, Option.any_some, hcolor]
      rfl

theorem balanced_paint_black (h : Balanced t n) (hred : isRed t = true) : Balanced (paint .black t) (n + 1) := by
  cases h with
  | nil => cases hred
  | red hcolor hl hr hleft hright => exact .black rfl hl hr
  | black hcolor hl hr =>
    rw [isRed, hcolor] at hred
    cases hred

theorem exists_balanced_paint (h : Balanced t n) : ∃ m, Balanced (paint .black t) m := by
  cases h with
  | nil => exact ⟨0, .nil⟩
  | red hcolor hl hr hleft hright => exact ⟨_, .black rfl hl hr⟩
  | black hcolor hl hr => exact ⟨_, .black rfl hl hr⟩

theorem BlackRoot.tail (h : BlackRoot (f :: p)) : BlackRoot p := by
  intro g hg
  cases p with
  | nil => cases hg
  | cons f' q => exact h g (by rwa [List.getLast?_cons_cons])

/-- The subtree after the rotations is black at its root and balanced. -/
theorem balanced_rotated {p g : Frame Node} (hpcolor : p.val.color = .red) (hps : Balanced p.sibling n)
    (hpsibling : isRed p.sibling = false) (hgs : Balanced g.sibling n) (hgsibling : isRed g.sibling = false)
    (hv : Balanced v n) (hred : isRed v = true) :
    let subtree := (paintFrame .red g).fill (paint .black (straighten g.side p v))
    let up := match g.side with
      | .left => subtree.rightRotate
      | .right => subtree.leftRotate
    Balanced up (n + 1) ∧ isRed up = false := by
  obtain ⟨pside, pval, psib⟩ := p
  obtain ⟨gside, gval, gsib⟩ := g
  cases hv with
  | nil => cases hred
  | black hcolor hl hr =>
    rw [isRed, hcolor] at hred
    cases hred
  | red hcolor hl hr hleft hright =>
    cases gside with
    | left =>
      cases pside with
      | left => exact ⟨.black rfl (.red hcolor hl hr hleft hright) (.red rfl hps hgs hpsibling hgsibling), rfl⟩
      | right => exact ⟨.black rfl (.red hpcolor hps hl hpsibling hleft) (.red rfl hr hgs hright hgsibling), rfl⟩
    | right =>
      cases pside with
      | left => exact ⟨.black rfl (.red rfl hgs hl hgsibling hleft) (.red hpcolor hr hps hright hpsibling), rfl⟩
      | right => exact ⟨.black rfl (.red rfl hgs hps hgsibling hpsibling) (.red hcolor hl hr hleft hright), rfl⟩

/-- Above a red parent the grandparent is black. -/
theorem BalancedPath.redParent {p g : Frame Node} (h : BalancedPath (p :: g :: rest) n)
    (hnot : ¬p.val.color = .black) :
    p.val.color = .red ∧ Balanced p.sibling n ∧ isRed p.sibling = false ∧ Balanced g.sibling n ∧
      BalancedPath rest (n + 1) := by
  cases h with
  | black hcolor hs hp => exact absurd hcolor hnot
  | red hcolor hs hsibling hparent hp =>
    cases hp with
    | red hgcolor hgs hgsibling hgparent hrest => simp [parentRed, hgcolor] at hparent
    | black hgcolor hgs hrest => exact ⟨hcolor, hs, hsibling, hgs, hrest⟩

theorem balanced_plug_black (ht : Balanced t n) (hp : BalancedPath p n) (hblack : isRed t = false) :
    ∃ m, Balanced (plug p t) m := by
  refine balanced_plug ht hp fun h => ?_
  rw [hblack] at h
  cases h

/-- The loop of `balance` at a red node, below which all is well. -/
theorem balanced_balanceLoop (hv : Balanced v n) (hred : isRed v = true) (hp : BalancedPath p n) (hroot : BlackRoot p) :
    ∃ m, Balanced (balanceLoop p v) m := by
  fun_induction balanceLoop p v generalizing n with
  | case1 v => exact ⟨n, hv⟩
  | case2 f v =>
    cases hp with
    | red hcolor hs hsibling hparent hp =>
      have hblack := hroot f rfl
      rw [hcolor] at hblack
      cases hblack
    | black hcolor hs hp => exact ⟨n + 1, balanced_fill_black hcolor hs hv⟩
  | case3 p g rest v hblack =>
    refine balanced_plug hv hp fun _ => ?_
    unfold parentRed
    rw [List.head?_cons, Option.any_some, hblack]
    rfl
  | case4 p g rest v hnot huncle ih =>
    obtain ⟨-, hs, -, hgs, hrest⟩ := hp.redParent hnot
    have hparent' : Balanced ((paintFrame .black p).fill v) (n + 1) := balanced_fill_black rfl hs hv
    refine ih (balanced_fill_red rfl (balanced_paint_black hgs huncle) ?_ hparent' ?_) ?_ hrest hroot.tail.tail
    · cases hsib : g.sibling with
      | nil => rfl
      | node l a r => rfl
    · rw [isRed_fill]
      rfl
    · rw [isRed_fill]
      rfl
  | case5 p g rest v hnot huncle subtree =>
    rename_i hside
    obtain ⟨hcolor, hs, hsibling, hgs, hrest⟩ := hp.redParent hnot
    obtain ⟨hup, hblack⟩ := balanced_rotated hcolor hs hsibling hgs (by simpa using huncle) hv hred
    rw [hside] at hup hblack
    refine balanced_plug_black ?_ hrest ?_
    · show Balanced ((paintFrame .red g).fill (paint .black (straighten g.side p v))).rightRotate (n + 1)
      rw [hside]
      exact hup
    · show isRed ((paintFrame .red g).fill (paint .black (straighten g.side p v))).rightRotate = false
      rw [hside]
      exact hblack
  | case6 p g rest v hnot huncle subtree =>
    rename_i hside
    obtain ⟨hcolor, hs, hsibling, hgs, hrest⟩ := hp.redParent hnot
    obtain ⟨hup, hblack⟩ := balanced_rotated hcolor hs hsibling hgs (by simpa using huncle) hv hred
    rw [hside] at hup hblack
    refine balanced_plug_black ?_ hrest ?_
    · show Balanced ((paintFrame .red g).fill (paint .black (straighten g.side p v))).leftRotate (n + 1)
      rw [hside]
      exact hup
    · show isRed ((paintFrame .red g).fill (paint .black (straighten g.side p v))).leftRotate = false
      rw [hside]
      exact hblack

theorem isRed_paint_black (t : BinTree Node) : isRed (paint .black t) = false := by
  cases t with
  | nil => rfl
  | node l a r => rfl

/-- Where a path ends at the top. -/
theorem blackRoot_of_plug (h : isRed (plug p t) = false) : BlackRoot p := by
  induction p generalizing t with
  | nil =>
    intro f hf
    cases hf
  | cons f p ih =>
    have hp : BlackRoot p := ih h
    cases p with
    | nil =>
      intro g hg
      have hg : f = g := Option.some.inj hg
      have hfill : isRed (f.fill t) = false := h
      rw [isRed_fill] at hfill
      cases hcolor : f.val.color with
      | black => rw [← hg, hcolor]
      | red =>
        rw [hcolor] at hfill
        cases hfill
    | cons f' q =>
      intro g hg
      exact hp g (by rwa [List.getLast?_cons_cons] at hg)

theorem valid_nil : Valid .nil := ⟨List.Pairwise.nil, rfl, 0, .nil⟩

/-- An accepted insertion keeps the tree a red-black tree. -/
theorem Valid.insert {entry : InternalRecord} {t' : BinTree Node} (h : Valid t) (hins : insert entry t = .ok t') :
    Valid t' := by
  have hrecords := insert_records entry h.ordered
  rw [hins] at hrecords
  have hordered : Ordered (records t') := Driver.insert_ordered h.ordered hrecords.symm
  unfold RBTree.insert at hins
  cases hd : descend (nodeBefore Node.record) ⟨entry, .red⟩ t [] with
  | none =>
    rw [hd] at hins
    cases hins
  | some p =>
    rw [hd] at hins
    cases hins
    obtain ⟨htree, -, -⟩ := descend_some hd (fun _ _ _ hab hbc => internalBefore_trans hab hbc)
      (List.pairwise_map.mp h.ordered) (by simp [before]) (by simp [after])
    have hplug : plug p .nil = t := htree
    obtain ⟨m, hm⟩ := h.balanced
    rw [← hplug] at hm
    obtain ⟨n, hnil, hp, -⟩ := balanced_unplug hm
    have hroot : BlackRoot p := blackRoot_of_plug (t := .nil) (by rw [hplug]; exact h.root)
    have hv : Balanced (.node .nil ⟨entry, .red⟩ .nil) n := .red rfl hnil hnil rfl rfl
    obtain ⟨k, hk⟩ := balanced_balanceLoop hv rfl hp hroot
    exact ⟨hordered, isRed_paint_black _, exists_balanced_paint hk⟩

/-- A tree with `n` black nodes on every way down is at most twice as high, and not too small. -/
theorem Balanced.height_le (h : Balanced t n) : t.height ≤ 2 * n + if isRed t then 1 else 0 := by
  induction h with
  | nil => exact Nat.zero_le _
  | red hcolor hl hr hleft hright ihl ihr =>
    rw [hleft] at ihl
    rw [hright] at ihr
    rw [BinTree.height, isRed, hcolor]
    simp only [Bool.false_eq_true, if_false, beq_self_eq_true, if_true] at ihl ihr ⊢
    omega
  | @black l r a n hcolor hl hr ihl ihr =>
    have hone : ∀ b : Bool, (if b = true then 1 else 0) ≤ 1 := by decide
    have hl1 := hone (isRed l)
    have hr1 := hone (isRed r)
    rw [BinTree.height]
    omega

theorem Balanced.size_ge (h : Balanced t n) : 2 ^ n ≤ t.size + 1 := by
  induction h with
  | nil => exact Nat.le_refl 1
  | red hcolor hl hr hleft hright ihl ihr =>
    rw [BinTree.size]
    omega
  | black hcolor hl hr ihl ihr =>
    rw [BinTree.size, Nat.pow_succ]
    omega

theorem Valid.height_le (h : Valid t) : t.height ≤ 2 * Nat.log 2 (t.size + 1) := by
  obtain ⟨n, hn⟩ := h.balanced
  have hheight := hn.height_le
  rw [h.root] at hheight
  have hlog : n ≤ Nat.log 2 (t.size + 1) := Nat.le_log_of_pow_le (by decide) hn.size_ge
  simp only [Bool.false_eq_true, if_false] at hheight
  omega

theorem insert_size {entry : InternalRecord} {t' : BinTree Node} (h : Valid t) (hins : insert entry t = .ok t') :
    t'.size = t.size + 1 := by
  have hrecords := insert_records entry h.ordered
  rw [hins] at hrecords
  have hperm := (Driver.insert_perm hrecords.symm).length_eq
  have hlength : ∀ u : BinTree Node, (records u).length = u.size := fun u => (List.length_map ..).trans u.size_eq.symm
  rw [List.length_cons, hlength, hlength] at hperm
  exact hperm

end

end RBTree

/-! ## The loop on the cells is the loop on the tree -/

namespace LinkedRBTree

open Kvdb.RBTree hiding insert balance

section

variable {s : Memory} {q rest : AddrPath Node} {v t : AddrTree Node} {f p g : Frame (Nat × Node)} {x fuel : Nat}

/-- A node with another colour. -/
def recolor (c : Color) (f : Frame (Nat × Node)) : Frame (Nat × Node) :=
  { f with val := (f.val.1, { f.val.2 with color := c }) }

theorem represents_recolor (h : Represents s (plug (f :: q) t)) (c : Color) :
    Represents (s.modify f.val.1 (setColor c)) (plug (recolor c f :: q) t) :=
  h.setFrameVal _

theorem isRedAt_frame (h : Represents s (plug (f :: q) t)) :
    isRedAt s (some f.val.1) = (f.val.2.color == .red) := by
  unfold isRedAt
  rw [Option.bind_some, h.frame_cell, Option.any_some]
  unfold frameCell
  cases f.side with
  | left => rfl
  | right => rfl

theorem isRedAt_addr {parent : Option Nat} (h : InMemory s.cell parent t) : isRedAt s (addr t) = isRed (bare t) := by
  cases t with
  | nil => rfl
  | node l a r =>
    unfold isRedAt
    rw [addr_node, Option.bind_some, h.1]
    rfl

/-- The round's end, when the two nodes above lie on one side. -/
theorem represents_liftParent (h : Represents s (plug (p :: g :: rest) v)) (hp : p.side = g.side) :
    Represents (liftParent g.side p.val.1 g.val.1 s)
      (plug ({ recolor .black p with sibling := (recolor .red g).fill p.sibling } :: rest) v) := by
  have hpainted := @represents_recolor _ rest ((recolor .black p).fill v) g (represents_recolor h .black) .red
  have hflip : Represents ((s.modify p.val.1 (setColor .black)).modify g.val.1 (setColor .red))
      (plug (flip (recolor .black p) v :: recolor .red g :: rest) p.sibling) := by
    rw [show p.sibling = (recolor .black p).sibling from rfl, plug_flip]
    exact hpainted
  have hside : (flip (recolor .black p) v).side = other g.side := congrArg other hp
  have hswap := hflip.swap hside (other_other g.side).symm
  rw [← plug_flip]
  exact hswap

/-- A node as a frame over its child on a side, and that child. -/
def onSide (side : Side) (l : AddrTree Node) (a : Nat × Node) (r : AddrTree Node) :
    Frame (Nat × Node) × AddrTree Node :=
  match side with
  | .left => ({ side := .left, val := a, sibling := r }, l)
  | .right => ({ side := .right, val := a, sibling := l }, r)

/-- The first step of a round, when the node is the inner child: it comes up and its parent goes on. -/
theorem represents_straighten {l r : AddrTree Node} {a : Nat × Node}
    (h : Represents s (plug (p :: g :: rest) (.node l a r))) (hp : p.side = other g.side) :
    Represents (s.rotate g.side p.val.1)
      (plug ((onSide g.side l a r).1 :: g :: rest) (p.fill (onSide g.side l a r).2)) := by
  have hfill : (onSide g.side l a r).1.fill (onSide g.side l a r).2 = .node l a r := by
    cases g.side with
    | left => rfl
    | right => rfl
  have hside : (onSide g.side l a r).1.side = g.side := by
    cases g.side with
    | left => rfl
    | right => rfl
  have hsplit : Represents s (plug ((onSide g.side l a r).1 :: p :: g :: rest) (onSide g.side l a r).2) := by
    show Represents s (plug (p :: g :: rest) ((onSide g.side l a r).1.fill (onSide g.side l a r).2))
    rw [hfill]
    exact h
  exact hsplit.swap hside hp

/-- A round with a red uncle: the grandparent is red now and the next node. -/
theorem fixUp_recolor (h : Represents s (plug (p :: g :: rest) v)) (hred : isRed (bare g.sibling) = true) :
    ∃ s' u, fixUp g.side x p.val.1 g.val.1 s = (.ok g.val.1, s') ∧ Represents s' (plug rest u) ∧
      addr u = some g.val.1 ∧
      bare u = ({ paintFrame .red (g.map Prod.snd) with sibling := paint .black (bare g.sibling) } : Frame Node).fill
        ((paintFrame .black (p.map Prod.snd)).fill (bare v)) := by
  have hup : Represents s (plug (g :: rest) (p.fill v)) := h
  have huncle : isRedAt s (s.childOf (other g.side) g.val.1) = true := by
    rw [hup.sibling_eq, isRedAt_addr (inMemory_plug.mp hup.cells).1.2.1]
    exact hred
  cases hsib : g.sibling with
  | nil =>
    rw [hsib] at hred
    cases hred
  | node l a r =>
    have hp := represents_recolor h .black
    have hpflip : Represents (s.modify p.val.1 (setColor .black))
        (plug (flip g ((recolor .black p).fill v) :: rest) (.node l a r)) := by
      rw [← hsib, plug_flip]
      exact hp
    have hu := hpflip.setVal fun n => { n with color := .black }
    have huflip : Represents ((s.modify p.val.1 (setColor .black)).modify a.1 (setColor .black))
        (plug ({ g with sibling := .node l (a.1, { a.2 with color := .black }) r } :: rest)
          ((recolor .black p).fill v)) := by
      rw [← plug_flip]
      exact hu
    refine ⟨_, _, ?_, represents_recolor huflip .red, addr_fill _ _, ?_⟩
    · unfold fixUp
      dsimp only
      rw [if_pos huncle, hup.sibling_eq, hsib]
      rfl
    · refine (map_fill _ _ _).trans ?_
      exact congrArg _ (map_fill _ _ _)

/-- A round with a black uncle: the node is below a black parent now. -/
theorem fixUp_rotate (h : Represents s (plug (p :: g :: rest) v)) (hx : addr v = some x)
    (hnot : isRed (bare g.sibling) = false) :
    ∃ s' x' f u, fixUp g.side x p.val.1 g.val.1 s = (.ok x', s') ∧ Represents s' (plug (f :: rest) u) ∧
      addr u = some x' ∧ f.val.2.color = .black ∧
      bare (f.fill u) =
        let subtree := (paintFrame .red (g.map Prod.snd)).fill
          (paint .black (straighten g.side (p.map Prod.snd) (bare v)))
        match g.side with
        | .left => subtree.rightRotate
        | .right => subtree.leftRotate := by
  have hup : Represents s (plug (g :: rest) (p.fill v)) := h
  have huncle : isRedAt s (s.childOf (other g.side) g.val.1) = false := by
    rw [hup.sibling_eq, isRedAt_addr (inMemory_plug.mp hup.cells).1.2.1]
    exact hnot
  unfold fixUp
  dsimp only
  rw [huncle, if_neg Bool.false_ne_true]
  by_cases hside : p.side = other g.side
  · -- the inner child
    rw [if_pos ((h.childOf_eq hx _).mpr hside)]
    cases v with
    | nil => cases hx
    | node l a r =>
      have hs := represents_straighten h hside
      have hfu : (onSide g.side l a r).1.side = g.side := by
        cases g.side with
        | left => rfl
        | right => rfl
      rw [hs.parentOf_addr (addr_fill p _), above_cons]
      dsimp only
      rw [hs.parentOf_frame, above_cons]
      refine ⟨_, _, _, _, rfl, represents_liftParent hs hfu, addr_fill p _, rfl, ?_⟩
      obtain ⟨pside, pval, psib⟩ := p
      obtain ⟨gside, gval, gsib⟩ := g
      cases hside
      cases gside with
      | left => rfl
      | right => rfl
  · -- the outer child
    rw [if_neg fun hchild => hside ((h.childOf_eq hx _).mp hchild)]
    have hsame : p.side = g.side := by
      have heq := congrArg other (eq_other hside)
      rw [other_other, other_other] at heq
      exact heq.symm
    refine ⟨_, _, _, _, rfl, represents_liftParent h hsame, hx, rfl, ?_⟩
    obtain ⟨pside, pval, psib⟩ := p
    obtain ⟨gside, gval, gsib⟩ := g
    cases hsame
    cases pside with
    | left => rfl
    | right => rfl

/-- Below a black node the loop ends. -/
theorem balanceFrom_stop (h : Represents s (plug (f :: q) v)) (hx : addr v = some x) (hblack : f.val.2.color = .black) :
    balanceFrom (fuel + 1) x s = some (.condition, s) := by
  have hparent : s.parentOf x = above (f :: q) := h.parentOf_addr hx
  have hred : isRedAt s (some f.val.1) = false := by
    rw [isRedAt_frame h, hblack]
    rfl
  rw [balanceFrom, hparent, above_cons]
  dsimp only
  rw [hred]
  exact if_pos (by simp)

/-- A round of the loop below a red parent that has a parent. -/
theorem balanceFrom_round (h : Represents s (plug (p :: g :: rest) v)) (hx : addr v = some x)
    (hred : p.val.2.color = .red) :
    balanceFrom (fuel + 1) x s =
      match fixUp g.side x p.val.1 g.val.1 s with
      | (.ok v, s) => balanceFrom fuel v s
      | (.error e, s) => some (e, s) := by
  have hup : Represents s (plug (g :: rest) (p.fill v)) := h
  have hparent : s.parentOf x = above (p :: g :: rest) := h.parentOf_addr hx
  have hcolor : isRedAt s (some p.val.1) = true := by
    rw [isRedAt_frame h, hred]
    rfl
  rw [balanceFrom, hparent, above_cons]
  dsimp only
  rw [hcolor, if_neg (by simp [h.root_ne hx]), h.parentOf_frame, above_cons]
  dsimp only
  rw [hup.childSide (addr_fill p v)]

/-- The loop on the cells gives the tree that the loop on the tree gives, and is left by its condition. -/
theorem balanceFrom_refines (h : Represents s (plug q v)) (hx : addr v = some x) (hroot : BlackRoot (barePath q))
    (hfuel : q.length < fuel) :
    ∃ s' t', balanceFrom fuel x s = some (.condition, s') ∧ Represents s' t' ∧
      bare t' = balanceLoop (barePath q) (bare v) := by
  induction fuel generalizing q v x s with
  | zero => cases hfuel
  | succ fuel ih =>
    match q, h, hroot, hfuel with
    | [], h, _, _ =>
      have hparent : s.parentOf x = none := h.parentOf_addr (p := []) hx
      refine ⟨s, v, ?_, h, rfl⟩
      rw [balanceFrom, hparent]
    | [f], h, hroot, _ =>
      have hblack : f.val.2.color = .black := hroot (f.map Prod.snd) rfl
      exact ⟨s, f.fill v, balanceFrom_stop h hx hblack, h, map_fill _ _ _⟩
    | p :: g :: rest, h, hroot, hfuel =>
      rw [List.length_cons, List.length_cons] at hfuel
      rw [show balanceLoop (barePath (p :: g :: rest)) (bare v) =
        balanceLoop (p.map Prod.snd :: g.map Prod.snd :: barePath rest) (bare v) from rfl, balanceLoop]
      by_cases hblack : p.val.2.color = .black
      · refine ⟨s, plug (p :: g :: rest) v, balanceFrom_stop h hx hblack, h, ?_⟩
        refine (map_plug _ _ _).trans ?_
        exact (if_pos hblack).symm
      · rw [if_neg (show ¬(p.map Prod.snd).val.color = .black from hblack),
          balanceFrom_round h hx (color_of_not_black hblack)]
        cases huncle : isRed (bare g.sibling) with
        | true =>
          obtain ⟨s', u, hfix, hs', hu, hbare⟩ := fixUp_recolor (x := x) h huncle
          obtain ⟨s'', t', hrun, ht', heq⟩ := ih hs' hu hroot.tail.tail (by omega)
          rw [hfix, if_pos (show isRed (g.map Prod.snd).sibling = true from huncle)]
          refine ⟨s'', t', hrun, ht', ?_⟩
          rw [heq, hbare]
          rfl
        | false =>
          obtain ⟨s', x', f, u, hfix, hs', hu, hfblack, hbare⟩ := fixUp_rotate h hx huncle
          have hnot : ¬isRed (g.map Prod.snd).sibling = true := by
            rw [show (g.map Prod.snd).sibling = bare g.sibling from rfl, huncle]
            exact Bool.false_ne_true
          obtain ⟨n, rfl⟩ : ∃ n, fuel = n + 1 := ⟨fuel - 1, by omega⟩
          rw [hfix, if_neg hnot]
          refine ⟨s', plug (f :: rest) u, balanceFrom_stop hs' hu hfblack, hs', ?_⟩
          refine (map_plug _ _ (f.fill u)).trans ?_
          rw [show (f.fill u).map Prod.snd = _ from hbare]
          obtain ⟨gside, gval, gsib⟩ := g
          cases gside with
          | left => rfl
          | right => rfl

/-- `balance` in memory is `balance` on the tree. -/
theorem balance_refines (h : Represents s (plug q v)) (hx : addr v = some x) (hroot : BlackRoot (barePath q))
    (hfuel : q.length < fuel) :
    ∃ s' t', balance fuel x s = some (.condition, s') ∧ Represents s' t' ∧
      bare t' = RBTree.balance (barePath q) (bare v) := by
  obtain ⟨s', t', hrun, ht', heq⟩ := balanceFrom_refines h hx hroot hfuel
  unfold balance
  rw [hrun, Option.map_some, RBTree.balance, ← heq]
  show ∃ s'' t'', some (Exit.condition, s'.modify? s'.root (setColor .black)) = _ ∧ _ ∧ _
  rw [ht'.root]
  cases t' with
  | nil => exact ⟨s', .nil, rfl, ht', rfl⟩
  | node l a r => exact ⟨_, _, rfl, @Represents.setVal _ _ [] l r a _ ht', rfl⟩

/-- An insertion in memory is the insertion on the tree. -/
theorem insert_refines {entry : InternalRecord} (h : Represents s t) (hvalid : Valid (bare t)) (hfuel : t.size < fuel) :
    (∃ e, RBTree.insert entry (bare t) = .error e ∧ insert fuel entry s = some (.error e)) ∨
      ∃ s' t', insert fuel entry s = some (.ok (.condition, s')) ∧ Represents s' t' ∧
        RBTree.insert entry (bare t) = .ok (bare t') := by
  unfold insert RBTree.insert
  dsimp only
  rcases h.place (nodeBefore Node.record) ⟨entry, .red⟩ hfuel.le with
    ⟨hplace, hd⟩ | ⟨q, hplace, hd, -, hlength, hs⟩
  · rw [hplace, hd]
    exact .inl ⟨_, rfl, rfl⟩
  · have hplug : plug (barePath q) .nil = bare t := descend_plug hd
    have hroot : BlackRoot (barePath q) := blackRoot_of_plug (t := .nil) (by rw [hplug]; exact hvalid.root)
    have hlt : q.length < fuel := by omega
    obtain ⟨s', t', hrun, ht', heq⟩ := balance_refines hs rfl hroot hlt
    rw [hplace, hd]
    refine .inr ⟨s', t', ?_, ht', ?_⟩
    · show (balance fuel s.next _).map Except.ok = _
      rw [hrun]
      rfl
    · rw [heq]
      rfl

/-! ## The validators -/

theorem rootIsBlack_eq (h : Represents s t) : rootIsBlack s = !isRed (bare t) := by
  unfold rootIsBlack
  rw [h.root]
  cases t with
  | nil => rfl
  | node l a r =>
    rw [addr_node, Option.bind_some, h.cells.1]
    show (a.2.color == .black) = !(a.2.color == .red)
    cases a.2.color with
    | red => rfl
    | black => rfl

theorem noRedNodeHasRedChild_eq (h : Represents s t) (hfuel : t.size ≤ fuel) {n : Nat} (hn : Balanced (bare t) n) :
    noRedNodeHasRedChild s fuel = some true := by
  unfold noRedNodeHasRedChild
  rw [h.fold hfuel]
  refine congrArg some ?_
  have hcells := h.cells
  generalize (none : Option Nat) = parent at hcells ⊢
  clear h hfuel
  induction t generalizing parent n with
  | nil => rfl
  | node l a r ihl ihr =>
    obtain ⟨-, hl, hr⟩ := hcells
    rw [foldTree]
    dsimp only
    rw [isRedAt_addr hl, isRedAt_addr hr]
    cases hn with
    | red hcolor hbl hbr hleft hright =>
      rw [ihl hbl _ hl, ihr hbr _ hr, hleft, hright]
      simp
    | black hcolor hbl hbr =>
      rw [ihl hbl _ hl, ihr hbr _ hr, if_neg]
      · rfl
      · intro hred
        rw [hcolor] at hred
        cases hred.1

theorem subtreeBlackHeightInfo_eq (h : Represents s t) (hfuel : t.size ≤ fuel) {n : Nat} (hn : Balanced (bare t) n) :
    subtreeBlackHeightInfo s fuel s.root = some (true, (n : Int) + 1) := by
  unfold subtreeBlackHeightInfo
  rw [h.fold hfuel]
  refine congrArg some ?_
  generalize (none : Option Nat) = parent
  clear h hfuel
  induction t generalizing parent n with
  | nil =>
    cases hn
    rfl
  | node l a r ihl ihr =>
    rw [foldTree]
    cases hn with
    | red hcolor hbl hbr hleft hright =>
      rw [ihl hbl, ihr hbr]
      simp [hcolor]
    | black hcolor hbl hbr =>
      rw [ihl hbl, ihr hbr]
      simp [hcolor]

theorem height_eq (h : Represents s t) (hfuel : t.size ≤ fuel) : height s fuel = some (bare t).height := by
  unfold height
  rw [h.fold hfuel]
  refine congrArg some ?_
  generalize (none : Option Nat) = parent
  clear h hfuel
  induction t generalizing parent with
  | nil => rfl
  | node l a r ihl ihr =>
    rw [foldTree, ihl, ihr]
    rfl

/-- A valid tree passes its validators. -/
theorem validate_eq (h : Represents s t) (hvalid : Valid (bare t)) (hfuel : t.size ≤ fuel) :
    validate s fuel = some true := by
  obtain ⟨n, hn⟩ := hvalid.balanced
  have hordered : (bare t).inorder.Pairwise fun a b => nodeBefore Node.record a b = true :=
    List.pairwise_map.mp hvalid.ordered
  unfold validate
  rw [noRedNodeHasRedChild_eq h hfuel hn, h.orderingCorrect hfuel hordered,
    subtreeBlackHeightInfo_eq h hfuel hn, h.parentLinksValid hfuel]
  show some (rootIsBlack s && true && true && true && true) = _
  rw [rootIsBlack_eq h, hvalid.root]
  rfl

/-! ## Every sequence of insertions -/

theorem insertAll_refines {entries : List InternalRecord} (h : Represents s t) (hvalid : Valid (bare t))
    (hfuel : t.size + entries.length < fuel) :
    ∃ exits s' t', insertAll fuel entries s = some (exits, s') ∧ (∀ e ∈ exits, e = .condition) ∧
      Represents s' t' ∧ Valid (bare t') ∧ t'.size < fuel ∧
      records (bare t') = Driver.insertAll entries (records (bare t)) := by
  induction entries generalizing s t with
  | nil => exact ⟨[], s, t, rfl, by simp, h, hvalid, hfuel, rfl⟩
  | cons entry entries ih =>
    rw [List.length_cons] at hfuel
    have hlt : t.size < fuel := by omega
    rw [insertAll]
    have hrecords := insert_records entry hvalid.ordered
    rcases @insert_refines s t fuel entry h hvalid hlt with ⟨e, htree, hins⟩ | ⟨s', t', hins, ht', htree⟩
    · rw [hins, Driver.insertAll, ← hrecords, htree]
      exact ih h hvalid (by omega)
    · have hsize := insert_size hvalid htree
      rw [size_map, size_map] at hsize
      rw [Driver.insertAll, ← hrecords, htree]
      obtain ⟨exits, s'', t'', hrun, hexits, hrest⟩ := ih ht' (hvalid.insert htree) (by omega)
      rw [hins]
      show ∃ exits s'' t'', (insertAll fuel entries s').map _ = _ ∧ _
      rw [hrun]
      refine ⟨.condition :: exits, s'', t'', rfl, ?_, hrest⟩
      intro e he
      rcases List.mem_cons.mp he with rfl | he
      · rfl
      · exact hexits e he

/-- Any insertions into an empty tree end: every loop is left by its condition, the cells are the accepted
records in order, the validators accept the tree, and it is balanced. -/
theorem validate_insertAll (entries : List InternalRecord) (fuel : Nat) (hfuel : entries.length < fuel) :
    ∃ exits s cells h, insertAll fuel entries .empty = some (exits, s) ∧ (∀ e ∈ exits, e = .condition) ∧
      validate s fuel = some true ∧ s.traverse fuel = some cells ∧
      cells.map (fun c => c.2.record) = Driver.insertAll entries [] ∧ height s fuel = some h ∧
      h ≤ 2 * Nat.log 2 (cells.length + 1) := by
  have hrun := @insertAll_refines .empty .nil fuel entries represents_empty valid_nil
  obtain ⟨exits, s, t, hins, hexits, ht, hvalid, hsize, hrecords⟩ := hrun (by simpa [BinTree.size] using hfuel)
  refine ⟨exits, s, t.inorder, (bare t).height, hins, hexits, validate_eq ht hvalid hsize.le,
    ht.traverse hsize.le, ?_,
    height_eq ht hsize.le, ?_⟩
  · have hnil : records (bare (.nil : AddrTree Node)) = [] := rfl
    rw [hnil] at hrecords
    rw [← hrecords, records, treeRecords, bare, inorder_map, List.map_map]
    rfl
  · rw [← t.size_eq, ← size_map Prod.snd t]
    exact hvalid.height_le

theorem validate_insertAll_ascending :
    let entries := [1, 2, 3].map fun b : UInt8 => (⟨.ofByte b, .ofByte 0, .put, 1⟩ : InternalRecord)
    ∃ exits s cells h, insertAll 4 entries .empty = some (exits, s) ∧ (∀ e ∈ exits, e = .condition) ∧
      validate s 4 = some true ∧ s.traverse 4 = some cells ∧
      cells.map (fun c => c.2.record) = Driver.insertAll entries [] ∧ height s 4 = some h ∧
      h ≤ 2 * Nat.log 2 (cells.length + 1) :=
  validate_insertAll _ 4 (by decide)

end

end LinkedRBTree

end Kvdb
