import Kvdb.Lib.LinkedTree
import Mathlib.Data.List.Perm.Subperm

/-!
# Walks over trees with parent pointers

The descent to the place of a new cell and its attachment, recursions over the
cells below a pointer, and the walk from left to right with a stack.  Each is a
function of the store with a bound on its steps, and each does on the cells of
a tree what its counterpart does on the tree (`findPlace_eq`, `Represents.attach`,
`fold_eq`, `Represents.traverse`).
-/

namespace LinkedTree

open SearchTree

variable {α β : Type}

/-- Where a descent ends. -/
inductive Place where
  | duplicate
  | below (parent : Option Nat)
deriving DecidableEq, Repr

namespace Store

/-- From `current` down to the place of `v`, with the parent at hand. -/
def findPlace (lt : α → α → Bool) (v : α) (s : Store α) : Nat → Option Nat → Option Nat → Option Place
  | _, none, parent => some (.below parent)
  | 0, some _, _ => none
  | fuel + 1, some a, _ =>
    (s.cell a).bind fun c =>
      if !lt v c.val && !lt c.val v then some .duplicate
      else if lt v c.val then findPlace lt v s fuel c.left (some a)
      else findPlace lt v s fuel c.right (some a)

/-- A new cell below a parent, or at the root. -/
def attach (lt : α → α → Bool) (v : α) (parent : Option Nat) (s : Store α) : Store α :=
  let s' : Store α :=
    { s with
      cell := Function.update s.cell s.next (some { val := v, parent := parent })
      next := s.next + 1 }
  match parent with
  | none => { s' with root := some s.next }
  | some p => s'.modify p fun c => c.setChild (if lt v c.val then .left else .right) (some s.next)

/-- A recursion over the cells below a pointer. -/
def fold (s : Store α) (z : β) (f : Nat → Cell α → β → β → β) : Nat → Option Nat → Option β
  | _, none => some z
  | 0, some _ => none
  | fuel + 1, some a =>
    (s.cell a).bind fun c =>
      (fold s z f fuel c.left).bind fun x => (fold s z f fuel c.right).map fun y => f a c x y

/-- Push a pointer and the left spine below it. -/
def pushLeft (s : Store α) : Nat → Option Nat → List Nat → Option (List Nat)
  | _, none, st => some st
  | 0, some _, _ => none
  | fuel + 1, some a, st => (s.cell a).bind fun c => pushLeft s fuel c.left (a :: st)

/-- Take the stack's top and push what is below its right child, until the stack is empty. -/
def popAll (s : Store α) : Nat → List Nat → Option (List (Nat × α))
  | _, [] => some []
  | 0, _ :: _ => none
  | fuel + 1, a :: st =>
    (s.cell a).bind fun c =>
      (s.pushLeft fuel c.right st).bind fun st' => (popAll s fuel st').map ((a, c.val) :: ·)

/-- The cells from left to right, with their addresses. -/
def traverse (s : Store α) (fuel : Nat) : Option (List (Nat × α)) :=
  (s.pushLeft fuel s.root []).bind (s.popAll fuel)

/-- Every cell's parent pointer leads to the cell above it. -/
def parentLinksValid (s : Store α) (fuel : Nat) : Option Bool :=
  (s.fold (fun _ => true)
    (fun a c left right expected => c.parent == expected && right (some a) && left (some a))
    fuel s.root).map fun check => check none

/-- Each value comes before the next one; `prev` is the one visited last. -/
def increasing (lt : α → α → Bool) : Option α → List α → Bool
  | _, [] => true
  | prev, b :: l => if prev.any fun a => !lt a b then false else increasing lt (some b) l

/-- The walk finds the values in order. -/
def orderingCorrect (lt : α → α → Bool) (s : Store α) (fuel : Nat) : Option Bool :=
  (s.traverse fuel).map fun cells => increasing lt none (cells.map Prod.snd)

/-- The tree that the pointers make. -/
def shape (s : Store α) (fuel : Nat) : Option (BinTree α) :=
  s.fold .nil (fun _ c l r => .node l c.val r) fuel s.root

end Store

/-! ## Descent and attachment -/

section

variable {lt : α → α → Bool} {v : α} {s : Store α} {t : AddrTree α} {p : AddrPath α}
    {parent : Option Nat} {fuel : Nat}

theorem findPlace_eq (x : Nat) (h : InMemory s.cell (above p) t) (hfuel : t.size ≤ fuel) :
    s.findPlace lt v fuel (addr t) (above p) =
      some (match descend (fun a b => lt a.2 b.2) (x, v) t p with
        | none => .duplicate
        | some q => .below (above q)) := by
  induction t generalizing p fuel with
  | nil =>
    cases fuel with
    | zero => rfl
    | succ fuel => rfl
  | node l a r ihl ihr =>
    obtain ⟨hcell, hl, hr⟩ := h
    rw [BinTree.size] at hfuel
    obtain ⟨n, rfl⟩ : ∃ n, fuel = n + 1 := ⟨fuel - 1, by omega⟩
    rw [addr_node, Store.findPlace, hcell, descend]
    show (if (!lt v a.2 && !lt a.2 v) = true then _ else _) = _
    split
    · rfl
    · split
      · exact @ihl (⟨.left, a, r⟩ :: p) n hl (by omega)
      · exact @ihr (⟨.right, a, l⟩ :: p) n hr (by omega)

/-- A new cell at an empty place. -/
theorem Represents.attach (h : Represents s (plug p .nil))
    (hside : ∀ f ∈ p.head?, f.side = if lt v f.val.2 then .left else .right) :
    Represents (s.attach lt v (above p)) (plug p (.node .nil (s.next, v) .nil)) := by
  have hperm := addrs_plug_perm p (.node .nil (s.next, v) .nil)
  have hold := addrs_plug_perm p (.nil : AddrTree α)
  rw [addrs_nil, List.nil_append] at hold
  have hpath : ∀ c ∈ pathAddrs p, c < s.next := fun c hc => h.fresh c (hold.mem_iff.mpr hc)
  have hnodup : (addrs (plug p (.node .nil (s.next, v) .nil))).Nodup := by
    rw [hperm.nodup_iff]
    refine List.nodup_cons.mpr ⟨fun hmem => ?_, hold.nodup_iff.mp h.nodup⟩
    exact Nat.lt_irrefl _ (hpath s.next hmem)
  have hnext : (s.attach lt v (above p)).next = s.next + 1 := by
    unfold Store.attach
    cases above p with
    | none => rfl
    | some q => rfl
  have hfresh : ∀ c ∈ addrs (plug p (.node .nil (s.next, v) .nil)), c < (s.attach lt v (above p)).next := by
    intro c hc
    rw [hnext]
    rcases List.mem_cons.mp (hperm.mem_iff.mp hc) with rfl | hc
    · exact Nat.lt_succ_self _
    · exact Nat.lt_succ_of_lt (hpath c hc)
  cases p with
  | nil => exact ⟨rfl, ⟨Function.update_self .., trivial, trivial⟩, hnodup, hfresh⟩
  | cons f q =>
    obtain ⟨hq, -⟩ := inMemory_plug.mp h.cells
    have hf : f.val.1 ≠ s.next := (hpath f.val.1 (above_mem rfl)).ne
    have hnode : (s.attach lt v (above (f :: q))).cell s.next = some ⟨v, none, none, some f.val.1⟩ := by
      show ((Store.mk _ _ _).modify f.val.1 _).cell s.next = _
      rw [modify_other hf.symm]
      exact Function.update_self ..
    refine ⟨h.root.trans addr_plug_cons, inMemory_plug.mpr ⟨?_, hnode, trivial, trivial⟩, hnodup, hfresh⟩
    refine hq.rehang (hold.nodup_iff.mp h.nodup) ?_ ?_
    · intro f' q' heq
      cases heq
      have hcell : (Function.update s.cell s.next (some (⟨v, none, none, some f.val.1⟩ : Cell α))) f.val.1 =
          some (frameCell f none (above q)) := by
        rw [Function.update_of_ne hf]
        exact hq.1
      have hval : (frameCell f none (above q)).val = f.val.2 := by
        unfold frameCell
        cases f.side with
        | left => rfl
        | right => rfl
      show ((Store.mk _ _ _).modify f.val.1 _).cell f.val.1 = _
      rw [modify_same hcell, hval, ← hside f rfl]
      rw [show s.cell f.val.1 = some (frameCell f none (above q)) from hq.1]
      rfl
    · intro c hc hne
      have hcf : c ≠ f.val.1 := fun heq => hne (by rw [heq]; rfl)
      show ((Store.mk _ _ _).modify f.val.1 _).cell c = _
      rw [modify_other hcf]
      exact Function.update_of_ne (hpath c hc).ne _ _

/-- The descent in memory and the one on the tree: both refuse, or both find the place for the new cell. -/
theorem Represents.place (lt : α → α → Bool) (v : α) (h : Represents s t) (hfuel : t.size ≤ fuel) :
    (s.findPlace lt v fuel s.root none = some .duplicate ∧ descend lt v (bare t) [] = none) ∨
      ∃ q, s.findPlace lt v fuel s.root none = some (.below (above q)) ∧
        descend lt v (bare t) [] = some (barePath q) ∧ plug q .nil = t ∧ q.length ≤ t.size ∧
        Represents (s.attach lt v (above q)) (plug q (.node .nil (s.next, v) .nil)) := by
  have hplace := @findPlace_eq _ lt v s t [] fuel s.next h.cells hfuel
  have hbare : descend lt v (bare t) [] = _ := @descend_map (Nat × α) α Prod.snd lt (s.next, v) t []
  rw [h.root, ← above_nil, hplace, hbare]
  cases hd : descend (fun a b => lt a.2 b.2) (s.next, v) t [] with
  | none => exact .inl ⟨rfl, rfl⟩
  | some q =>
    have hplug : plug q .nil = t := descend_plug hd
    have hlength := length_le_size q .nil
    rw [hplug] at hlength
    refine .inr ⟨q, rfl, rfl, hplug, by omega, ?_⟩
    refine Represents.attach (hplug ▸ h) (descend_side hd ?_)
    intro f hf
    cases hf

end

/-! ## Recursions -/

/-- A recursion over a tree that sees the cells. -/
def foldTree (z : β) (f : Nat → Cell α → β → β → β) : Option Nat → AddrTree α → β
  | _, .nil => z
  | parent, .node l a r =>
    f a.1 ⟨a.2, addr l, addr r, parent⟩ (foldTree z f (some a.1) l) (foldTree z f (some a.1) r)

section

variable {s : Store α} {t : AddrTree α} {parent : Option Nat} {fuel : Nat}

theorem fold_eq {z : β} {f : Nat → Cell α → β → β → β} (h : InMemory s.cell parent t)
    (hfuel : t.size ≤ fuel) :
    s.fold z f fuel (addr t) = some (foldTree z f parent t) := by
  induction t generalizing parent fuel with
  | nil =>
    cases fuel with
    | zero => rfl
    | succ fuel => rfl
  | node l a r ihl ihr =>
    obtain ⟨hcell, hl, hr⟩ := h
    rw [BinTree.size] at hfuel
    obtain ⟨n, rfl⟩ : ∃ n, fuel = n + 1 := ⟨fuel - 1, by omega⟩
    rw [addr_node, Store.fold, hcell]
    show ((s.fold z f n (addr l)).bind fun x => (s.fold z f n (addr r)).map fun y => _) = _
    rw [ihl hl (by omega), ihr hr (by omega)]
    rfl

theorem Represents.fold {z : β} {f : Nat → Cell α → β → β → β} (h : Represents s t)
    (hfuel : t.size ≤ fuel) :
    s.fold z f fuel s.root = some (foldTree z f none t) := by
  rw [h.root]
  exact fold_eq h.cells hfuel

theorem Represents.parentLinksValid (h : Represents s t) (hfuel : t.size ≤ fuel) :
    s.parentLinksValid fuel = some true := by
  unfold Store.parentLinksValid
  rw [h.fold hfuel, Option.map_some]
  refine congrArg some ?_
  generalize (none : Option Nat) = parent
  clear h hfuel
  induction t generalizing parent with
  | nil => rfl
  | node l a r ihl ihr =>
    show (parent == parent && _ && _) = true
    rw [ihl, ihr, beq_self_eq_true]
    rfl

theorem Represents.shape (h : Represents s t) (hfuel : t.size ≤ fuel) : s.shape fuel = some (t.map Prod.snd) := by
  unfold Store.shape
  rw [h.fold hfuel]
  refine congrArg some ?_
  generalize (none : Option Nat) = parent
  clear h hfuel
  induction t generalizing parent with
  | nil => rfl
  | node l a r ihl ihr =>
    rw [foldTree, ihl, ihr]
    rfl

/-- A tree has no more nodes than cells were ever made. -/
theorem Represents.size_le (h : Represents s t) : t.size ≤ s.next := by
  have hlength : t.size = (addrs t).length := by
    rw [t.size_eq]
    exact (List.length_map ..).symm
  have hsub : addrs t ⊆ List.range s.next := fun a ha => List.mem_range.mpr (h.fresh a ha)
  have hle := (List.subperm_of_subset h.nodup hsub).length_le
  rw [List.length_range] at hle
  omega

end

/-! ## The walk with a stack -/

/-- The addresses on the stack are those of nodes with the right children that the other stack has. -/
def OnStack (cell : Nat → Option (Cell α)) : List Nat → List ((Nat × α) × AddrTree α) → Prop :=
  List.Forall₂ fun a e =>
    a = e.1.1 ∧ ∃ c, cell a = some c ∧ c.val = e.1.2 ∧ c.right = addr e.2 ∧ InMemory cell (some a) e.2

section

variable {s : Store α} {t : AddrTree α} {parent : Option Nat} {fuel : Nat} {st : List Nat}
  {ts : List ((Nat × α) × AddrTree α)}

theorem pushLeft_onStack (h : InMemory s.cell parent t) (hst : OnStack s.cell st ts) (hfuel : t.size ≤ fuel) :
    ∃ st', s.pushLeft fuel (addr t) st = some st' ∧ OnStack s.cell st' (pushLeft t ts) := by
  induction t generalizing parent fuel st ts with
  | nil =>
    refine ⟨st, ?_, hst⟩
    cases fuel with
    | zero => rfl
    | succ fuel => rfl
  | node l a r ihl _ =>
    obtain ⟨hcell, hl, hr⟩ := h
    rw [BinTree.size] at hfuel
    obtain ⟨n, rfl⟩ : ∃ n, fuel = n + 1 := ⟨fuel - 1, by omega⟩
    rw [addr_node, Store.pushLeft, hcell]
    have htop : OnStack s.cell (a.1 :: st) ((a, r) :: ts) :=
      List.Forall₂.cons ⟨rfl, _, hcell, rfl, rfl, hr⟩ hst
    exact ihl hl htop (by omega)

theorem popAll_onStack (hst : OnStack s.cell st ts) (hfuel : (stackList ts).length ≤ fuel) :
    s.popAll fuel st = some (stackList ts) := by
  induction fuel generalizing st ts with
  | zero =>
    cases hst with
    | nil => rfl
    | cons he hst => simp [stackList] at hfuel
  | succ fuel ih =>
    cases hst with
    | nil => rfl
    | @cons a e st ts he hst =>
      obtain ⟨rfl, c, hcell, hval, hright, hin⟩ := he
      obtain ⟨b, r⟩ := e
      rw [stackList, List.length_cons, List.length_append, ← r.size_eq] at hfuel
      obtain ⟨st', hpush, hst'⟩ := @pushLeft_onStack _ s r _ fuel st ts hin hst (by omega)
      rw [Store.popAll, hcell]
      show ((s.pushLeft fuel c.right st).bind fun st' => _) = _
      rw [hright, hpush]
      show (s.popAll fuel st').map _ = _
      rw [ih hst' (by rw [stackList_pushLeft, List.length_append, ← r.size_eq]; omega), stackList_pushLeft, hval]
      rfl

/-- The iterator visits the nodes of the tree in order. -/
theorem Represents.traverse (h : Represents s t) (hfuel : t.size ≤ fuel) : s.traverse fuel = some t.inorder := by
  obtain ⟨st, hpush, hst⟩ := pushLeft_onStack h.cells List.Forall₂.nil hfuel
  unfold Store.traverse
  rw [h.root, hpush]
  show s.popAll fuel st = _
  have hlist := stackList_pushLeft t []
  rw [stackList, List.append_nil] at hlist
  rw [popAll_onStack hst (by rw [hlist, ← t.size_eq]; exact hfuel), hlist]

theorem increasing_of_pairwise {lt : α → α → Bool} {prev : Option α} {l : List α}
    (h : l.Pairwise fun a b => lt a b = true) (hprev : ∀ a ∈ prev, ∀ b ∈ l, lt a b = true) :
    Store.increasing lt prev l = true := by
  induction l generalizing prev with
  | nil => rfl
  | cons b l ih =>
    obtain ⟨hb, hl⟩ := List.pairwise_cons.mp h
    rw [Store.increasing, if_neg]
    · refine ih hl ?_
      intro a ha
      cases ha
      exact hb
    · cases prev with
      | none => exact Bool.false_ne_true
      | some a =>
        have hab := hprev a rfl b (by simp)
        simp [hab]

theorem Represents.orderingCorrect {lt : α → α → Bool} (h : Represents s t) (hfuel : t.size ≤ fuel)
    (hordered : (t.map Prod.snd).inorder.Pairwise fun a b => lt a b = true) :
    s.orderingCorrect lt fuel = some true := by
  unfold Store.orderingCorrect
  rw [h.traverse hfuel, Option.map_some]
  rw [inorder_map] at hordered
  exact congrArg some (increasing_of_pairwise hordered (by simp))

end

end LinkedTree
