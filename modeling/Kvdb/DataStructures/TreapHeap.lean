import Kvdb.DataStructures.Trees
import Kvdb.Lib.HeapTree
import Kvdb.Lib.LinkedWalk

/-!
# The treap in memory

`data_structures/treap.cpp` on cells with parent pointers.  The loop that lifts a
new node is the loop on the tree (`bubbleUp_refines`), which restores the heap
order (`heap_bubbleUp`).  Two treaps with the same records and priorities, the
priorities different, have one shape whatever the order of the insertions.
-/

namespace Kvdb

open SearchTree LinkedTree

/-! ## The algorithm on cells -/

namespace LinkedTreap

open Treap (Node)

abbrev Memory := Store Node

def priorityAt (s : Memory) (o : Option Nat) : Option UInt64 := (o.bind s.cell).map fun c => c.val.priority

/-- The loop of `bst_insert` that lifts a node above those of smaller priority; `none` when the rounds do not
suffice. -/
def bubbleUp : Nat → Nat → Memory → Option Memory
  | 0, _, _ => none
  | fuel + 1, v, s =>
    match s.parentOf v with
    | none => some s
    | some p =>
      (priorityAt s (some v)).bind fun mine =>
        (priorityAt s (some p)).bind fun parents =>
          if mine > parents then
            bubbleUp fuel v (if s.childOf .left p = some v then s.rotate .right p else s.rotate .left p)
          else some s

/-- `Treap::insert`, with the priority drawn for the new node. -/
def insert (fuel : Nat) (entry : InternalRecord) (priority : UInt64) (s : Memory) : Option (Except Status Memory) :=
  let v : Node := { record := entry, priority := priority }
  (s.findPlace (nodeBefore Node.record) v fuel s.root none).bind fun
    | .duplicate => some (.error (duplicateEntry entry))
    | .below none => some (.ok (s.attach (nodeBefore Node.record) v none))
    | .below (some parent) =>
      (bubbleUp fuel s.next (s.attach (nodeBefore Node.record) v (some parent))).map .ok

/-- Insertions one after the other; those that were accepted. -/
def insertAll (fuel : Nat) : List (InternalRecord × UInt64) → Memory →
    Option (List (InternalRecord × UInt64) × Memory)
  | [], s => some ([], s)
  | e :: es, s =>
    (insert fuel e.1 e.2 s).bind fun
      | .error _ => insertAll fuel es s
      | .ok s => (insertAll fuel es s).map fun (accepted, s) => (e :: accepted, s)

/-! ## Validators -/

def heapOrderingCorrect (s : Memory) (fuel : Nat) : Option Bool :=
  s.fold true
    (fun _ c left right =>
      if (priorityAt s c.left).any (· > c.val.priority) then false
      else if (priorityAt s c.right).any (· > c.val.priority) then false
      else left && right)
    fuel s.root

def validate (s : Memory) (fuel : Nat) : Option Bool := do
  let heap ← heapOrderingCorrect s fuel
  let order ← s.orderingCorrect (nodeBefore Node.record) fuel
  let links ← s.parentLinksValid fuel
  return heap && order && links

end LinkedTreap

/-! ## Heap order -/

namespace Treap

/-- A node may stand below another. -/
def rankLe (a b : Node) : Prop := a.priority ≤ b.priority

theorem rankLe_trans (a b c : Node) (hab : rankLe a b) (hbc : rankLe b c) : rankLe a c :=
  UInt64.le_trans hab hbc

/-- What every insertion keeps. -/
structure Valid (t : BinTree Node) : Prop where
  ordered : Ordered (records t)
  heap : Heap rankLe t

section

variable {t t' : BinTree Node} {p : Path Node} {l r : BinTree Node} {a : Node} {entry : InternalRecord}
  {priority : UInt64}

/-- The loop lifts the node until the heap order holds. -/
theorem heap_bubbleUp (h : Lifting rankLe p l a r) : Heap rankLe (bubbleUp a.priority p (.node l a r)) := by
  induction p generalizing l r with
  | nil => exact h.below
  | cons f p ih =>
    rw [bubbleUp]
    split
    · next hlt =>
      have hle : rankLe f.val a := UInt64.le_of_lt hlt
      obtain ⟨side, b, s⟩ := f
      cases side with
      | left => exact ih (h.rightRotate rankLe_trans hle)
      | right => exact ih (h.leftRotate rankLe_trans hle)
    · next hlt =>
      refine h.heap rankLe_trans ?_
      intro g hg
      cases hg
      exact UInt64.not_lt.mp hlt

theorem valid_nil : Valid .nil := ⟨List.Pairwise.nil, trivial⟩

/-- What an accepted insertion does. -/
theorem insert_ok (hins : insert entry priority t = .ok t') :
    ∃ p, descend (nodeBefore Node.record) ⟨entry, priority⟩ t [] = some p ∧
      t' = bubbleUp priority p (.node .nil ⟨entry, priority⟩ .nil) := by
  unfold insert at hins
  cases hd : descend (nodeBefore Node.record) ⟨entry, priority⟩ t [] with
  | none =>
    rw [hd] at hins
    cases hins
  | some p =>
    rw [hd] at hins
    exact ⟨p, rfl, (Except.ok.inj hins).symm⟩

theorem Valid.insert (h : Valid t) (hins : insert entry priority t = .ok t') : Valid t' := by
  have hrecords := insert_records entry priority h.ordered
  rw [hins] at hrecords
  refine ⟨Driver.insert_ordered h.ordered hrecords.symm, ?_⟩
  obtain ⟨p, hd, rfl⟩ := insert_ok hins
  have hplug : plug p .nil = t := descend_plug hd
  exact heap_bubbleUp (lifting_leaf (hplug ▸ h.heap) ⟨entry, priority⟩)

/-- An accepted insertion adds its node. -/
theorem insert_nodes (hins : insert entry priority t = .ok t') :
    t'.inorder.Perm (⟨entry, priority⟩ :: t.inorder) := by
  obtain ⟨p, hd, rfl⟩ := insert_ok hins
  have hplug : plug p .nil = t := descend_plug hd
  rw [inorder_bubbleUp, ← hplug, inorder_plug, inorder_plug]
  simp only [BinTree.inorder, List.nil_append, List.append_nil]
  rw [List.append_assoc]
  exact List.perm_middle

/-- A refused insertion has its record there. -/
theorem insert_refused {e : Status} (hins : insert entry priority t = .error e) :
    ∃ x ∈ t.inorder, internalBefore entry x.record = false ∧ internalBefore x.record entry = false := by
  unfold insert at hins
  cases hd : descend (nodeBefore Node.record) ⟨entry, priority⟩ t [] with
  | none => exact descend_none hd
  | some p =>
    rw [hd] at hins
    cases hins

/-- Nodes with different priorities make one treap. -/
theorem Valid.unique (h : Valid t) (h' : Valid t') (hsame : ∀ a, a ∈ t.inorder ↔ a ∈ t'.inorder)
    (hdistinct : ∀ a ∈ t.inorder, ∀ b ∈ t.inorder, a.priority = b.priority → a = b) : t = t' := by
  have hirrefl : ∀ a b : Node, nodeBefore Node.record a b = true → a ≠ b := by
    rintro a b hab rfl
    exact Bool.false_ne_true ((internalBefore_asymm _ _ hab).symm.trans hab)
  have hord : t.inorder.Pairwise fun a b => nodeBefore Node.record a b = true := List.pairwise_map.mp h.ordered
  have hord' : t'.inorder.Pairwise fun a b => nodeBefore Node.record a b = true := List.pairwise_map.mp h'.ordered
  have hnodup : t.inorder.Nodup := hord.imp fun hab => hirrefl _ _ hab
  have hnodup' : t'.inorder.Nodup := hord'.imp fun hab => hirrefl _ _ hab
  have hperm : t.inorder.Perm t'.inorder := (List.perm_ext_iff_of_nodup hnodup hnodup').mpr hsame
  have hlist : t.inorder = t'.inorder := by
    refine hperm.eq_of_pairwise ?_ hord hord'
    intro a b _ _ hab hba
    exact absurd rfl (hirrefl a a (internalBefore_trans hab hba))
  refine heap_unique h.heap h'.heap hlist hnodup ?_
  intro a ha b hb hab hba
  exact hdistinct a ha b hb (UInt64.le_antisymm hab hba)

end

end Treap

/-! ## The loop on the cells is the loop on the tree -/

namespace LinkedTreap

open Treap hiding insert bubbleUp

section

variable {s : Memory} {q : AddrPath Node} {l r t : AddrTree Node} {a : Nat × Node} {fuel : Nat}

theorem priorityAt_addr {parent : Option Nat} (h : InMemory s.cell parent t) :
    priorityAt s (addr t) = (bare t).root?.map Node.priority := by
  cases t with
  | nil => rfl
  | node l a r =>
    unfold priorityAt
    rw [addr_node, Option.bind_some, h.1]
    rfl

theorem bubbleUp_refines (h : Represents s (plug q (.node l a r))) (hfuel : q.length < fuel) :
    ∃ s' t', bubbleUp fuel a.1 s = some s' ∧ Represents s' t' ∧
      bare t' = Treap.bubbleUp a.2.priority (barePath q) (bare (.node l a r)) := by
  induction fuel generalizing q l r s with
  | zero => cases hfuel
  | succ fuel ih =>
    have hparent : s.parentOf a.1 = above q := h.parentOf_addr rfl
    cases q with
    | nil => exact ⟨s, .node l a r, by rw [bubbleUp, hparent]; rfl, h, rfl⟩
    | cons f q =>
      rw [List.length_cons] at hfuel
      have hlt : q.length < fuel := by omega
      have hup : Represents s (plug q (f.fill (.node l a r))) := h
      have hmine : priorityAt s (some a.1) = some a.2.priority := by
        unfold priorityAt
        rw [Option.bind_some, h.node_cell]
        rfl
      have hparents : priorityAt s (some f.val.1) = some f.val.2.priority := by
        rw [← addr_fill f (.node l a r), priorityAt_addr (inMemory_plug.mp hup.cells).2]
        obtain ⟨side, b, sib⟩ := f
        cases side with
        | left => rfl
        | right => rfl
      have hside := h.childOf_eq (x := a.1) rfl .left
      rw [bubbleUp, hparent, above_cons]
      dsimp only
      rw [hmine, hparents, Option.bind_some, Option.bind_some]
      show ∃ s' t', _ ∧ _ ∧ bare t' = Treap.bubbleUp a.2.priority (f.map Prod.snd :: barePath q) _
      rw [Treap.bubbleUp]
      show ∃ s' t', _ ∧ _ ∧ bare t' = if a.2.priority > f.val.2.priority then _ else _
      by_cases hgt : a.2.priority > f.val.2.priority
      · rw [if_pos hgt, if_pos hgt]
        obtain ⟨side, b, sib⟩ := f
        cases side with
        | left =>
          have hnode : Represents s (plug q (.node (.node l a r) b sib)) := h
          have hlifted : Represents (s.rotate .right b.1) (plug q (.node l a (.node r b sib))) := hnode.rightRotate
          rw [if_pos (hside.mpr rfl)]
          exact ih hlifted hlt
        | right =>
          have hnode : Represents s (plug q (.node sib b (.node l a r))) := h
          have hlifted : Represents (s.rotate .left b.1) (plug q (.node (.node sib b l) a r)) := hnode.leftRotate
          rw [if_neg fun hc => nomatch hside.mp hc]
          exact ih hlifted hlt
      · rw [if_neg hgt, if_neg hgt]
        exact ⟨s, _, rfl, h, map_plug _ _ _⟩

/-- An insertion in memory is the insertion on the tree. -/
theorem insert_refines (entry : InternalRecord) (priority : UInt64) (h : Represents s t) (hfuel : t.size < fuel) :
    (∃ e, Treap.insert entry priority (bare t) = .error e ∧ insert fuel entry priority s = some (.error e)) ∨
      ∃ s' t', insert fuel entry priority s = some (.ok s') ∧ Represents s' t' ∧
        Treap.insert entry priority (bare t) = .ok (bare t') := by
  unfold insert Treap.insert
  dsimp only
  rcases h.place (nodeBefore Node.record) ⟨entry, priority⟩ hfuel.le with
    ⟨hplace, hd⟩ | ⟨q, hplace, hd, -, hlength, hs⟩
  · rw [hplace, hd]
    exact .inl ⟨_, rfl, rfl⟩
  · have hlt : q.length < fuel := by omega
    obtain ⟨s', t', hrun, ht', heq⟩ := bubbleUp_refines hs hlt
    rw [hplace, hd]
    refine .inr ?_
    cases q with
    | nil => exact ⟨_, _, rfl, hs, rfl⟩
    | cons f q =>
      refine ⟨s', t', ?_, ht', ?_⟩
      · exact congrArg (Option.map Except.ok) hrun
      · rw [heq]
        rfl

/-! ## The validators -/

theorem heapOrderingCorrect_eq (h : Represents s t) (hheap : Heap rankLe (bare t)) (hfuel : t.size ≤ fuel) :
    heapOrderingCorrect s fuel = some true := by
  unfold heapOrderingCorrect
  rw [h.fold hfuel]
  refine congrArg some ?_
  have hcells := h.cells
  generalize (none : Option Nat) = parent at hcells ⊢
  clear h hfuel
  induction t generalizing parent with
  | nil => rfl
  | node l a r ihl ihr =>
    obtain ⟨-, hl, hr⟩ := hcells
    obtain ⟨hbelow, hheapl, hheapr⟩ := hheap
    have hroot : ∀ u : BinTree Node, (∀ b ∈ u.inorder, rankLe b a.2) →
        (u.root?.map Node.priority).any (· > a.2.priority) = false := by
      intro u hu
      cases u with
      | nil => rfl
      | node l' b r' =>
        have hb : b.priority ≤ a.2.priority := hu b (by simp [BinTree.inorder])
        simpa [BinTree.root?] using hb
    rw [foldTree]
    dsimp only
    rw [priorityAt_addr hl, priorityAt_addr hr, hroot _ fun b hb => hbelow b (.inl hb),
      hroot _ fun b hb => hbelow b (.inr hb), ihl hheapl _ hl, ihr hheapr _ hr]
    rfl

theorem validate_eq (h : Represents s t) (hvalid : Valid (bare t)) (hfuel : t.size ≤ fuel) :
    validate s fuel = some true := by
  have hordered : (bare t).inorder.Pairwise fun a b => nodeBefore Node.record a b = true :=
    List.pairwise_map.mp hvalid.ordered
  unfold validate
  rw [heapOrderingCorrect_eq h hvalid.heap hfuel, h.orderingCorrect hfuel hordered, h.parentLinksValid hfuel]
  rfl

/-! ## Every sequence of insertions -/

/-- Two records that a treap can hold together. -/
def Apart (a b : InternalRecord) : Prop := internalBefore a b = true ∨ internalBefore b a = true

/-- The tree in memory is a treap, and its nodes are the accepted insertions. -/
structure Holding (s : Memory) (t : AddrTree Node) (accepted : List (InternalRecord × UInt64)) : Prop where
  memory : Represents s t
  valid : Valid (bare t)
  nodes : ((bare t).inorder.map fun a => (a.record, a.priority)).Perm accepted

variable {accepted : List (InternalRecord × UInt64)} {e : InternalRecord × UInt64}

theorem holding_empty : Holding .empty .nil [] := ⟨represents_empty, valid_nil, List.Perm.nil⟩

theorem Holding.size_eq (h : Holding s t accepted) : t.size = accepted.length := by
  rw [← h.nodes.length_eq, List.length_map, ← BinTree.size_eq, size_map]

theorem Holding.mem_iff (h : Holding s t accepted) (a : Node) :
    a ∈ (bare t).inorder ↔ (a.record, a.priority) ∈ accepted := by
  rw [← h.nodes.mem_iff, List.mem_map]
  constructor
  · intro ha
    exact ⟨a, ha, rfl⟩
  · rintro ⟨b, hb, heq⟩
    obtain ⟨record, priority⟩ := a
    obtain ⟨record', priority'⟩ := b
    cases heq
    exact hb

/-- One insertion: refused because of a record that is there, or one more node. -/
theorem Holding.insert (h : Holding s t accepted) (e : InternalRecord × UInt64) (hfuel : t.size < fuel) :
    (∃ err, insert fuel e.1 e.2 s = some (.error err) ∧ ∃ x ∈ accepted, ¬Apart e.1 x.1) ∨
      ∃ s' t', insert fuel e.1 e.2 s = some (.ok s') ∧ Holding s' t' (e :: accepted) := by
  rcases insert_refines e.1 e.2 h.memory hfuel with ⟨err, htree, hins⟩ | ⟨s', t', hins, ht', htree⟩
  · obtain ⟨x, hx, hex, hxe⟩ := insert_refused htree
    refine .inl ⟨err, hins, (x.record, x.priority), (h.mem_iff x).mp hx, ?_⟩
    rintro (hlt | hlt)
    · exact Bool.false_ne_true (hex.symm.trans hlt)
    · exact Bool.false_ne_true (hxe.symm.trans hlt)
  · refine .inr ⟨s', t', hins, ht', h.valid.insert htree, ?_⟩
    exact ((insert_nodes htree).map _).trans (h.nodes.cons e)

theorem insertAll_holding (inserts : List (InternalRecord × UInt64)) (h : Holding s t accepted)
    (hfuel : accepted.length + inserts.length < fuel) :
    ∃ more s' t', insertAll fuel inserts s = some (more, s') ∧ Holding s' t' (more ++ accepted) ∧
      t'.size < fuel ∧
      ((inserts.Pairwise fun a b => Apart a.1 b.1) → (∀ e ∈ inserts, ∀ x ∈ accepted, Apart e.1 x.1) →
        more = inserts) := by
  induction inserts generalizing s t accepted with
  | nil =>
    refine ⟨[], s, t, rfl, h, ?_, fun _ _ => rfl⟩
    have hsize := h.size_eq
    rw [List.length_nil] at hfuel
    omega
  | cons e es ih =>
    rw [List.length_cons] at hfuel
    have hsize := h.size_eq
    have hlt : t.size < fuel := by omega
    rw [insertAll]
    rcases h.insert e hlt with ⟨err, hins, x, hx, hsame⟩ | ⟨s', t', hins, h'⟩
    · obtain ⟨more, s'', t'', hrun, hhold, hlt', -⟩ := ih h (by omega)
      rw [hins]
      refine ⟨more, s'', t'', hrun, hhold, hlt', fun _ hfresh => ?_⟩
      exact absurd (hfresh e (by simp) x hx) hsame
    · obtain ⟨more, s'', t'', hrun, hhold, hlt', hall⟩ := ih h' (by rw [List.length_cons]; omega)
      have hmiddle : (more ++ e :: accepted).Perm (e :: more ++ accepted) := List.perm_middle
      rw [hins]
      show ∃ more' s'' t'', (insertAll fuel es s').map _ = _ ∧ _
      rw [hrun]
      refine ⟨e :: more, s'', t'', rfl, ⟨hhold.memory, hhold.valid, hhold.nodes.trans hmiddle⟩, hlt', ?_⟩
      intro hpair hfresh
      obtain ⟨he, hes⟩ := List.pairwise_cons.mp hpair
      rw [hall hes ?_]
      intro b hb x hx
      rcases List.mem_cons.mp hx with rfl | hx
      · exact (he b hb).symm
      · exact hfresh b (by simp [hb]) x hx

/-- Treaps with the same nodes have one shape. -/
theorem Holding.shape_eq {s' : Memory} {t' : AddrTree Node} {accepted' : List (InternalRecord × UInt64)}
    (h : Holding s t accepted) (h' : Holding s' t' accepted') (hsame : ∀ e, e ∈ accepted ↔ e ∈ accepted')
    (hdistinct : ∀ e ∈ accepted, ∀ e' ∈ accepted, e.2 = e'.2 → e = e') : bare t = bare t' := by
  refine h.valid.unique h'.valid (fun a => ?_) ?_
  · rw [h.mem_iff, h'.mem_iff]
    exact hsame _
  · intro a ha b hb hab
    obtain ⟨record, priority⟩ := a
    obtain ⟨record', priority'⟩ := b
    have heq := hdistinct _ ((h.mem_iff _).mp ha) _ ((h.mem_iff _).mp hb) hab
    cases heq
    rfl

/-- Any insertions into an empty treap, with any priorities, end and pass the validators, and the nodes are the
accepted records with their priorities.  Insertions of different records are all accepted, and with
different priorities the shape is that of any other insertions
with the same accepted ones. -/
theorem insertAll_shape (inserts : List (InternalRecord × UInt64)) (fuel : Nat) (hfuel : inserts.length < fuel) :
    ∃ accepted s t, insertAll fuel inserts .empty = some (accepted, s) ∧ validate s fuel = some true ∧
      s.shape fuel = some t ∧ (t.inorder.map fun a => (a.record, a.priority)).Perm accepted ∧
      ((inserts.Pairwise fun a b => Apart a.1 b.1) → accepted = inserts) ∧
      ∀ inserts' fuel' accepted' s', inserts'.length < fuel' →
        insertAll fuel' inserts' .empty = some (accepted', s') → (∀ e, e ∈ accepted ↔ e ∈ accepted') →
        (∀ e ∈ accepted, ∀ e' ∈ accepted, e.2 = e'.2 → e = e') → s'.shape fuel' = some t := by
  obtain ⟨accepted, s, t, hrun, hhold, hsize, hall⟩ :=
    insertAll_holding inserts holding_empty (by rwa [List.length_nil, Nat.zero_add])
  rw [List.append_nil] at hhold
  refine ⟨accepted, s, bare t, hrun, validate_eq hhold.memory hhold.valid hsize.le, hhold.memory.shape hsize.le,
    hhold.nodes, fun hpair => hall hpair (by simp), ?_⟩
  intro inserts' fuel' accepted' s' hfuel' hrun' hsame hdistinct
  obtain ⟨accepted'', s'', t', hrun'', hhold', hsize', -⟩ :=
    insertAll_holding inserts' holding_empty (by rwa [List.length_nil, Nat.zero_add])
  rw [hrun'] at hrun''
  cases hrun''
  rw [List.append_nil] at hhold'
  rw [hhold'.memory.shape hsize'.le, hhold.shape_eq hhold' hsame hdistinct]

theorem insertAll_shape_three :
    let inserts := [(1, 5), (2, 9), (3, 5)].map fun p : UInt8 × UInt64 =>
      ((⟨.ofByte p.1, .ofByte 0, .put, 1⟩ : InternalRecord), p.2)
    ∃ accepted s t, insertAll 4 inserts .empty = some (accepted, s) ∧ validate s 4 = some true ∧
      s.shape 4 = some t ∧ (t.inorder.map fun a => (a.record, a.priority)).Perm accepted ∧
      ((inserts.Pairwise fun a b => Apart a.1 b.1) → accepted = inserts) ∧
      ∀ inserts' fuel' accepted' s', inserts'.length < fuel' →
        insertAll fuel' inserts' .empty = some (accepted', s') → (∀ e, e ∈ accepted ↔ e ∈ accepted') →
        (∀ e ∈ accepted, ∀ e' ∈ accepted, e.2 = e'.2 → e = e') → s'.shape fuel' = some t :=
  insertAll_shape _ 4 (by decide)

end

end LinkedTreap

end Kvdb
