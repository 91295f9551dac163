import Kvdb.Engine.MemTable
import Kvdb.Lib.SearchTree

/-!
# Red-black tree, treap and splay tree

The three tree drivers (`data_structures/`).  They share the descent of
`bst_insert`, the lookup loop and the stack iterator, and differ in what they do
with the new node or the node a lookup ends at: recolouring and rotations, a
bubble up by priority, or a splay.  A pointer to a node is the subtree there and
the path of its ancestors.

Each of them is the ordered list of its records: `insert_records` and
`find_records` in each namespace.
-/

namespace Kvdb

open SearchTree

/-! ## What the three share -/

/-- Node comparison through the record it holds. -/
def nodeBefore {α : Type} (record : α → InternalRecord) (a b : α) : Bool :=
  internalBefore (record a) (record b)

/-- The refusal of all drivers. -/
def duplicateEntry (r : InternalRecord) : Status :=
  ⟨.duplicate, "Duplicate entry for key: " ++ Driver.formatEntry r.key⟩

/-- The lookup loop: the last node seen with the key. -/
def findNode {α : Type} (record : α → InternalRecord) (key : ArenaEntry) (t : BinTree α) : Option InternalRecord :=
  (findLoop (fun a => (record a).key.lt key) (fun a => (record a).key == key) t none).map record

/-- `dump_inorder` through the stack iterator. -/
def dumpNodes {α : Type} (record : α → InternalRecord) (t : BinTree α) : List InternalRecord :=
  (popAll t.size (pushLeft t [])).map record

/-- The records of a tree from left to right. -/
def treeRecords {α : Type} (record : α → InternalRecord) (t : BinTree α) : List InternalRecord :=
  t.inorder.map record

/-- Two insertions with the same outcome, and states related by `R` after it. -/
def SameOutcome {σ : Type} (R : σ → List InternalRecord → Prop) :
    Except Status σ → Except Status (List InternalRecord) → Prop
  | .ok s, .ok l => R s l
  | .error e, .error e' => e = e'
  | _, _ => False

section Shared

variable {α : Type} {record : α → InternalRecord}

theorem dumpNodes_eq (t : BinTree α) : dumpNodes record t = treeRecords record t := by
  rw [dumpNodes, popAll_pushLeft, treeRecords]

theorem searchable_of_ordered (key : ArenaEntry) {l : List α} (h : Ordered (l.map record)) :
    Searchable (fun a => (record a).key.lt key) (fun a => (record a).key == key) l := by
  refine ⟨fun a _ hlt => ?_, (List.pairwise_map.mp h).imp fun {a b} hab => ?_⟩
  · have hlt' : (record a).key < key := (ArenaEntry.lt_iff _ _).mp hlt
    simpa using hlt'.ne
  · have hle : (record a).key ≤ (record b).key := by
      rcases internalBefore_iff.mp hab with h | ⟨h, -⟩
      · exact h.le
      · exact h.le
    constructor
    · intro hb
      exact (ArenaEntry.lt_iff _ _).mpr (hle.trans_lt ((ArenaEntry.lt_iff _ _).mp hb))
    · intro ha hb
      have hge : key ≤ (record a).key := by
        rw [← Bool.not_eq_true, ArenaEntry.lt_iff, not_lt] at ha
        exact ha
      have hkey : (record b).key = key := by simpa using hb
      simpa using le_antisymm (hkey ▸ hle) hge

/-- The lookup loop of an ordered tree finds what a scan of its records finds. -/
theorem findNode_eq (key : ArenaEntry) {t : BinTree α} (h : Ordered (treeRecords record t)) :
    findNode record key t = Driver.findLatestByKey key (treeRecords record t) := by
  rw [findNode, findLoop_eq (searchable_of_ordered key h), Driver.findLatestByKey, treeRecords,
    List.find?_map, Option.or_none]
  rfl

/-- A place for the new node was found: the driver's list takes the record. -/
theorem descend_insert {v : α} {t : BinTree α} {p : Path α} (h : Ordered (treeRecords record t))
    (hd : descend (nodeBefore record) v t [] = some p) :
    Driver.insert (record v) (treeRecords record t) =
      .ok (treeRecords record (plug p (.node .nil v .nil))) := by
  obtain ⟨htree, hb, ha⟩ := descend_some hd (fun _ _ _ hab hbc => internalBefore_trans hab hbc)
    (List.pairwise_map.mp h) (by simp [before]) (by simp [after])
  have hold : treeRecords record t = (before p).map record ++ (after p).map record := by
    rw [treeRecords, show t = plug p .nil from htree.symm, inorder_plug]
    simp [BinTree.inorder]
  have hnew : treeRecords record (plug p (.node .nil v .nil)) =
      (before p).map record ++ record v :: (after p).map record := by
    rw [treeRecords, inorder_plug]
    simp [BinTree.inorder]
  rw [hold, hnew]
  refine Driver.insert_between ?_ ?_
  · intro x hx
    obtain ⟨a, ha', rfl⟩ := List.mem_map.mp hx
    exact hb a ha'
  · intro x hx
    obtain ⟨a, ha', rfl⟩ := List.mem_map.mp hx
    exact ha a ha'

/-- No place was found: the driver's list refuses the record. -/
theorem descend_refused {v : α} {t : BinTree α} (h : Ordered (treeRecords record t))
    (hd : descend (nodeBefore record) v t [] = none) :
    Driver.insert (record v) (treeRecords record t) = .error (duplicateEntry (record v)) := by
  obtain ⟨x, hx, hvx, hxv⟩ := descend_none hd
  exact Driver.insert_same h (List.mem_map_of_mem hx) hvx hxv

end Shared

/-! ## Red-black tree -/

namespace RBTree

inductive Color where
  | red
  | black
deriving DecidableEq, Repr

structure Node where
  record : InternalRecord
  color : Color
deriving DecidableEq

/-- Set the colour of the node a subtree starts with. -/
def paint (c : Color) : BinTree Node → BinTree Node
  | .nil => .nil
  | .node l a r => .node l { a with color := c } r

def paintFrame (c : Color) (f : Frame Node) : Frame Node := { f with val := { f.val with color := c } }

/-- A node that is there and red. -/
def isRed : BinTree Node → Bool
  | .nil => false
  | .node _ a _ => a.color == .red

/-- `left_rotate` or `right_rotate` at the parent, when the new node is its inner child. -/
def straighten (outer : Side) (p : Frame Node) (v : BinTree Node) : BinTree Node :=
  match outer, p.side with
  | .left, .right => (p.fill v).leftRotate
  | .right, .left => (p.fill v).rightRotate
  | _, _ => p.fill v

/-- The loop of `balance` at the node with the subtree `v`; it gives the whole tree. -/
def balanceLoop : Path Node → BinTree Node → BinTree Node
  | [], v => v
  | [p], v => p.fill v
  | p :: g :: rest, v =>
    if p.val.color = .black then plug (p :: g :: rest) v
    else if isRed g.sibling then
      -- a red uncle: recolour and go on at the grandparent
      balanceLoop rest
        (({ paintFrame .red g with sibling := paint .black g.sibling } : Frame Node).fill
          ((paintFrame .black p).fill v))
    else
      -- after these rotations the parent is black, which ends the loop
      let subtree := (paintFrame .red g).fill (paint .black (straighten g.side p v))
      match g.side with
      | .left => plug rest subtree.rightRotate
      | .right => plug rest subtree.leftRotate

/-- `balance`: the root is black in the end. -/
def balance (p : Path Node) (v : BinTree Node) : BinTree Node := paint .black (balanceLoop p v)

/-- `RBTree::insert`. -/
def insert (entry : InternalRecord) (t : BinTree Node) : Except Status (BinTree Node) :=
  match descend (nodeBefore Node.record) ⟨entry, .red⟩ t [] with
  | none => .error (duplicateEntry entry)
  | some p => .ok (balance p (.node .nil ⟨entry, .red⟩ .nil))

/-- `RBTree::find_latest_by_key`. -/
def findLatestByKey (key : ArenaEntry) (t : BinTree Node) : Option InternalRecord := findNode Node.record key t

/-- `RBTree::dump_inorder`. -/
def dumpInorder (t : BinTree Node) : List InternalRecord := dumpNodes Node.record t

abbrev records (t : BinTree Node) : List InternalRecord := treeRecords Node.record t

@[simp] theorem records_paint (c : Color) (t : BinTree Node) : records (paint c t) = records t := by
  cases t with
  | nil => rfl
  | node l a r => simp [paint, records, treeRecords, BinTree.inorder]

theorem records_straighten (outer : Side) (p : Frame Node) (v : BinTree Node) :
    records (straighten outer p v) = records (p.fill v) := by
  unfold straighten
  split
  · simp [records, treeRecords]
  · simp [records, treeRecords]
  · rfl

/-- Recolouring and rotating keep the records in their order. -/
theorem records_balanceLoop (p : Path Node) (v : BinTree Node) :
    records (balanceLoop p v) = records (plug p v) := by
  fun_induction balanceLoop p v with
  | case1 v => rfl
  | case2 p v => rfl
  | case3 p g rest v hblack => rfl
  | case4 p g rest v hblack hred ih =>
    rw [ih]
    refine inorder_plug_map rest ?_
    refine inorder_fill_map rfl rfl ?_ ?_
    · exact records_paint .black g.sibling
    · exact inorder_fill_map rfl rfl rfl rfl
  | case5 p g rest v hblack hred subtree hside =>
    refine inorder_plug_map rest ?_
    rw [inorder_rightRotate]
    refine inorder_fill_map rfl rfl rfl ?_
    exact (records_paint .black _).trans (records_straighten g.side p v)
  | case6 p g rest v hblack hred subtree hside =>
    refine inorder_plug_map rest ?_
    rw [inorder_leftRotate]
    refine inorder_fill_map rfl rfl rfl ?_
    exact (records_paint .black _).trans (records_straighten g.side p v)

theorem insert_records (entry : InternalRecord) {t : BinTree Node} (h : Ordered (records t)) :
    (insert entry t).map records = Driver.insert entry (records t) := by
  unfold insert
  cases hd : descend (nodeBefore Node.record) ⟨entry, .red⟩ t [] with
  | none => exact (descend_refused h hd).symm
  | some p =>
    have hins := descend_insert h hd
    rw [hins]
    show Except.ok (records (balance p _)) = _
    rw [balance, records_paint, records_balanceLoop]

end RBTree

/-! ## Treap -/

namespace Treap

structure Node where
  record : InternalRecord
  priority : UInt64
deriving DecidableEq

/-- The loop of `bst_insert` that lifts the new node, of the given priority, above smaller ones. -/
def bubbleUp (priority : UInt64) : Path Node → BinTree Node → BinTree Node
  | [], v => v
  | p :: rest, v =>
    if priority > p.val.priority then
      match p.side with
      | .left => bubbleUp priority rest (p.fill v).rightRotate
      | .right => bubbleUp priority rest (p.fill v).leftRotate
    else plug (p :: rest) v

/-- `Treap::insert`, with the priority drawn for the new node. -/
def insert (entry : InternalRecord) (priority : UInt64) (t : BinTree Node) : Except Status (BinTree Node) :=
  match descend (nodeBefore Node.record) ⟨entry, priority⟩ t [] with
  | none => .error (duplicateEntry entry)
  | some p => .ok (bubbleUp priority p (.node .nil ⟨entry, priority⟩ .nil))

/-- `Treap::find_latest_by_key`. -/
def findLatestByKey (key : ArenaEntry) (t : BinTree Node) : Option InternalRecord := findNode Node.record key t

/-- `Treap::dump_inorder`. -/
def dumpInorder (t : BinTree Node) : List InternalRecord := dumpNodes Node.record t

abbrev records (t : BinTree Node) : List InternalRecord := treeRecords Node.record t

theorem inorder_bubbleUp (priority : UInt64) (p : Path Node) (v : BinTree Node) :
    (bubbleUp priority p v).inorder = (plug p v).inorder := by
  fun_induction bubbleUp priority p v with
  | case1 v => rfl
  | case2 p rest v hlt hside ih =>
    rw [ih]
    exact inorder_plug_congr rest (inorder_rightRotate _)
  | case3 p rest v hlt hside ih =>
    rw [ih]
    exact inorder_plug_congr rest (inorder_leftRotate _)
  | case4 p rest v hlt => rfl

theorem insert_records (entry : InternalRecord) (priority : UInt64) {t : BinTree Node} (h : Ordered (records t)) :
    (insert entry priority t).map records = Driver.insert entry (records t) := by
  unfold insert
  cases hd : descend (nodeBefore Node.record) ⟨entry, priority⟩ t [] with
  | none => exact (descend_refused h hd).symm
  | some p =>
    have hins := descend_insert h hd
    rw [hins]
    show Except.ok ((bubbleUp priority p _).inorder.map Node.record) = _
    rw [inorder_bubbleUp]
    rfl

end Treap

/-! ## Splay tree -/

namespace SplayTree

/-- `splay`: rotate the node with the subtree `v` up to the root, two levels at a time. -/
def splay : Path InternalRecord → BinTree InternalRecord → BinTree InternalRecord
  | [], v => v
  | [p], v =>
    match p.side with
    | .left => (p.fill v).rightRotate
    | .right => (p.fill v).leftRotate
  | p :: g :: rest, v =>
    match g.side, p.side with
    | .left, .left => splay rest (g.fill (p.fill v)).rightRotate.rightRotate
    | .right, .right => splay rest (g.fill (p.fill v)).leftRotate.leftRotate
    | .right, .left => splay rest (g.fill (p.fill v).rightRotate).leftRotate
    | .left, .right => splay rest (g.fill (p.fill v).leftRotate).rightRotate

/-- `SplayTree::insert`. -/
def insert (entry : InternalRecord) (t : BinTree InternalRecord) : Except Status (BinTree InternalRecord) :=
  match descend (nodeBefore id) entry t [] with
  | none => .error (duplicateEntry entry)
  | some p => .ok (splay p (.node .nil entry .nil))

/-- A pointer to a node: the subtree there and the path above it. -/
abbrev Pointer := BinTree InternalRecord × Path InternalRecord

/-- The loop of the restructuring lookup: the last node with the key, and the last node visited. -/
def findLoop (key : ArenaEntry) :
    BinTree InternalRecord → Path InternalRecord → Option Pointer → Option Pointer →
      Option Pointer × Option Pointer
  | .nil, _, result, last => (result, last)
  | .node l a r, p, result, _ =>
    if a.key.lt key then findLoop key r (⟨.right, a, l⟩ :: p) result (some (.node l a r, p))
    else
      findLoop key l (⟨.left, a, r⟩ :: p) (if a.key == key then some (.node l a r, p) else result)
        (some (.node l a r, p))

/-- `SplayTree::find_latest_by_key`: the record and the restructured tree. -/
def findLatestByKey (key : ArenaEntry) (t : BinTree InternalRecord) :
    Option InternalRecord × BinTree InternalRecord :=
  match findLoop key t [] none none with
  | (some (v, p), _) => (v.root?, splay p v)
  | (none, some (v, p)) => (none, splay p v)
  | (none, none) => (none, t)

/-- The `const` lookup, which leaves the tree as it is. -/
def findLatestByKeyConst (key : ArenaEntry) (t : BinTree InternalRecord) : Option InternalRecord :=
  findNode id key t

/-- `SplayTree::dump_inorder`. -/
def dumpInorder (t : BinTree InternalRecord) : List InternalRecord := dumpNodes id t

abbrev records (t : BinTree InternalRecord) : List InternalRecord := treeRecords id t

theorem inorder_splay (p : Path InternalRecord) (v : BinTree InternalRecord) :
    (splay p v).inorder = (plug p v).inorder := by
  fun_induction splay p v with
  | case1 v => rfl
  | case2 p v hside => exact inorder_rightRotate _
  | case3 p v hside => exact inorder_leftRotate _
  | case4 p g rest v hg hp ih =>
    rw [ih]
    refine inorder_plug_congr rest ?_
    rw [inorder_rightRotate, inorder_rightRotate]
  | case5 p g rest v hg hp ih =>
    rw [ih]
    refine inorder_plug_congr rest ?_
    rw [inorder_leftRotate, inorder_leftRotate]
  | case6 p g rest v hg hp ih =>
    rw [ih]
    refine inorder_plug_congr rest ?_
    rw [inorder_leftRotate]
    exact inorder_fill_congr g (inorder_rightRotate _)
  | case7 p g rest v hg hp ih =>
    rw [ih]
    refine inorder_plug_congr rest ?_
    rw [inorder_rightRotate]
    exact inorder_fill_congr g (inorder_leftRotate _)

theorem insert_records (entry : InternalRecord) {t : BinTree InternalRecord} (h : Ordered (records t)) :
    (insert entry t).map records = Driver.insert entry (records t) := by
  unfold insert
  cases hd : descend (nodeBefore id) entry t [] with
  | none => exact (descend_refused h hd).symm
  | some p =>
    have hins := descend_insert h hd
    rw [id] at hins
    rw [hins]
    show Except.ok ((splay p _).inorder.map id) = _
    rw [inorder_splay]
    rfl

/-- The pointers of the loop point into the tree, and the hit is the one of the plain loop. -/
theorem findLoop_pointers (key : ArenaEntry) (whole t : BinTree InternalRecord) (p : Path InternalRecord)
    (result last : Option Pointer) (hp : plug p t = whole)
    (hresult : ∀ q ∈ result, plug q.2 q.1 = whole) (hlast : ∀ q ∈ last, plug q.2 q.1 = whole) :
    (∀ q ∈ (findLoop key t p result last).1, plug q.2 q.1 = whole) ∧
    (∀ q ∈ (findLoop key t p result last).2, plug q.2 q.1 = whole) ∧
    (findLoop key t p result last).1.bind (fun q => q.1.root?) =
      SearchTree.findLoop (fun a => a.key.lt key) (fun a => a.key == key) t
        (result.bind fun q => q.1.root?) := by
  induction t generalizing p result last with
  | nil => exact ⟨hresult, hlast, rfl⟩
  | node l a r ihl ihr =>
    have hhere : ∀ q ∈ some ((.node l a r, p) : Pointer), plug q.2 q.1 = whole := by
      intro q hq
      cases hq
      exact hp
    rw [findLoop, SearchTree.findLoop]
    split
    · exact ihr _ result _ hp hresult hhere
    · split
      · exact ihl _ _ _ hp hhere hhere
      · exact ihl _ result _ hp hresult hhere

/-- The lookup that restructures answers as the plain one and keeps the records. -/
theorem find_records (key : ArenaEntry) {t : BinTree InternalRecord} (h : Ordered (records t)) :
    (findLatestByKey key t).1 = Driver.findLatestByKey key (records t) ∧
      records (findLatestByKey key t).2 = records t := by
  obtain ⟨hresult, hlast, hroot⟩ := findLoop_pointers key t t [] none none rfl (by simp) (by simp)
  have hplain : (findLoop key t [] none none).1.bind (fun q => q.1.root?) =
      Driver.findLatestByKey key (records t) := by
    rw [hroot, ← findNode_eq key h, findNode]
    simp
  rw [← hplain]
  unfold findLatestByKey
  cases hres : (findLoop key t [] none none).1 with
  | some q =>
    obtain ⟨v, p⟩ := q
    have hq := hresult (v, p) hres
    rw [show findLoop key t [] none none = (some (v, p), (findLoop key t [] none none).2) from
      Prod.ext hres rfl]
    refine ⟨rfl, ?_⟩
    simp only [records, treeRecords, inorder_splay]
    rw [show plug p v = t from hq]
  | none =>
    cases hla : (findLoop key t [] none none).2 with
    | some q =>
      obtain ⟨v, p⟩ := q
      have hq := hlast (v, p) hla
      rw [show findLoop key t [] none none = (none, some (v, p)) from Prod.ext hres hla]
      refine ⟨rfl, ?_⟩
      simp only [records, treeRecords, inorder_splay]
      rw [show plug p v = t from hq]
    | none =>
      rw [show findLoop key t [] none none = (none, none) from Prod.ext hres hla]
      exact ⟨rfl, rfl⟩

end SplayTree

end Kvdb
