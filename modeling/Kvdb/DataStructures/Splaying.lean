import Kvdb.DataStructures.Trees
import Kvdb.Lib.LinkedWalk

/-!
# The splay tree in memory

`data_structures/splay_tree.cpp` on cells with parent pointers.  While the cells
are those of a tree, a round of `splay` finds one of its cases, so the loop ends
with the node at the root and every node in its place in order (`splay_spec`);
insertions and lookups are those of the tree (`insert_spec`, `find_spec`).
-/

namespace Kvdb

open SearchTree LinkedTree

/-! ## The algorithm on cells -/

namespace LinkedSplayTree

abbrev Memory := Store InternalRecord

/-- The loop of `splay`; `none` when the rounds do not suffice. -/
def splay : Nat → Nat → Memory → Option Memory
  | 0, _, _ => none
  | fuel + 1, v, s =>
    match s.parentOf v with
    | none => some s
    | some p =>
      match s.parentOf p with
      | none => splay fuel v (if s.childOf .left p = some v then s.rotate .right p else s.rotate .left p)
      | some g =>
        if s.childOf .left g = some p ∧ s.childOf .left p = some v then
          splay fuel v ((s.rotate .right g).rotate .right p)
        else if s.childOf .right g = some p ∧ s.childOf .right p = some v then
          splay fuel v ((s.rotate .left g).rotate .left p)
        else if s.childOf .right g = some p ∧ s.childOf .left p = some v then
          splay fuel v ((s.rotate .right p).rotate .left g)
        else if s.childOf .left g = some p ∧ s.childOf .right p = some v then
          splay fuel v ((s.rotate .left p).rotate .right g)
        else splay fuel v s -- no case: the next round is the same

/-- `SplayTree::insert`. -/
def insert (fuel : Nat) (entry : InternalRecord) (s : Memory) : Option (Except Status Unit × Memory) :=
  (s.findPlace (nodeBefore id) entry fuel s.root none).bind fun
    | .duplicate => some (.error (duplicateEntry entry), s)
    | .below parent => (splay fuel s.next (s.attach (nodeBefore id) entry parent)).map fun s => (.ok (), s)

/-- The loop of the restructuring lookup: the last node with the key, and the last node visited. -/
def findLoop (key : ArenaEntry) (s : Memory) :
    Nat → Option Nat → Option Nat → Option Nat → Option (Option Nat × Option Nat)
  | _, none, result, last => some (result, last)
  | 0, some _, _, _ => none
  | fuel + 1, some current, result, _ =>
    (s.cell current).bind fun c =>
      if c.val.key.lt key then findLoop key s fuel c.right result (some current)
      else findLoop key s fuel c.left (if c.val.key == key then some current else result) (some current)

/-- `SplayTree::find_latest_by_key`, the overload that restructures. -/
def findLatestByKey (fuel : Nat) (key : ArenaEntry) (s : Memory) : Option (Option InternalRecord × Memory) :=
  (findLoop key s fuel s.root none none).bind fun
    | (none, none) => some (none, s)
    | (none, some last) => (splay fuel last s).map fun s => (none, s)
    | (some result, _) => (splay fuel result s).bind fun s => (s.cell result).map fun c => (some c.val, s)

/-- `validate`. -/
def validate (s : Memory) (fuel : Nat) : Option Bool := do
  let order ← s.orderingCorrect (nodeBefore id) fuel
  let links ← s.parentLinksValid fuel
  return order && links

/-- A call that may change the tree. -/
inductive Op where
  | insert (entry : InternalRecord)
  | find (key : ArenaEntry)

def step (fuel : Nat) (s : Memory) : Op → Option Memory
  | .insert entry => (insert fuel entry s).map Prod.snd
  | .find key => (findLatestByKey fuel key s).map Prod.snd

def run (fuel : Nat) : List Op → Memory → Option Memory
  | [], s => some s
  | op :: ops, s => (step fuel s op).bind (run fuel ops)

/-! ## Splaying -/

section

variable {s : Memory} {p : AddrPath InternalRecord} {l r t : AddrTree InternalRecord} {a : Nat × InternalRecord}
  {f g : Frame (Nat × InternalRecord)} {fuel : Nat}

/-- What a loop that ends with the node `a` at the root gives for the tree `t`. -/
def SplayedTo (t : AddrTree InternalRecord) (a : Nat × InternalRecord) (bareTree : BinTree InternalRecord)
    (o : Option Memory) : Prop :=
  ∃ s' l' r', o = some s' ∧ Represents s' (.node l' a r') ∧ (BinTree.node l' a r').inorder = t.inorder ∧
    bare (.node l' a r') = bareTree

theorem SplayedTo.congr {t t' : AddrTree InternalRecord} {b : BinTree InternalRecord} {o : Option Memory}
    (h : SplayedTo t a b o) (ht : t.inorder = t'.inorder) : SplayedTo t' a b o := by
  obtain ⟨s', l', r', ho, hs', hin, hb⟩ := h
  exact ⟨s', l', r', ho, hs', hin.trans ht, hb⟩

/-- A round of the loop with a grandparent: one of the four cases. -/
theorem splay_round (h : Represents s (plug (f :: g :: p) (.node l a r))) :
    splay (fuel + 1) a.1 s = splay fuel a.1
      (match g.side, f.side with
      | .left, .left => (s.rotate .right g.val.1).rotate .right f.val.1
      | .right, .right => (s.rotate .left g.val.1).rotate .left f.val.1
      | .right, .left => (s.rotate .right f.val.1).rotate .left g.val.1
      | .left, .right => (s.rotate .left f.val.1).rotate .right g.val.1) := by
  have hup : Represents s (plug (g :: p) (f.fill (.node l a r))) := h
  have hparent : s.parentOf a.1 = some f.val.1 := h.parentOf_addr rfl
  have hgrand : s.parentOf f.val.1 = some g.val.1 := h.parentOf_frame
  have hv : ∀ side, s.childOf side f.val.1 = some a.1 ↔ f.side = side := h.childOf_eq rfl
  have hp : ∀ side, s.childOf side g.val.1 = some f.val.1 ↔ g.side = side := hup.childOf_eq (addr_fill f _)
  rw [splay, hparent]
  dsimp only
  rw [hgrand]
  dsimp only
  simp only [hv, hp]
  cases g.side with
  | left =>
    cases f.side with
    | left => simp
    | right => simp
  | right =>
    cases f.side with
    | left => simp
    | right => simp

/-- The loop ends with the node at the root. -/
theorem splay_spec (h : Represents s (plug p (.node l a r))) (hfuel : p.length < fuel) :
    SplayedTo (plug p (.node l a r)) a (SplayTree.splay (barePath p) (bare (.node l a r))) (splay fuel a.1 s) := by
  induction fuel generalizing p l r s with
  | zero => cases hfuel
  | succ fuel ih =>
    match p, h, hfuel with
    | [], h, _ =>
      have hparent : s.parentOf a.1 = none := h.parentOf_addr (p := []) rfl
      refine ⟨s, l, r, ?_, h, rfl, rfl⟩
      rw [splay, hparent]
    | [f], h, hfuel =>
      have hlt : 0 < fuel := by simpa using hfuel
      have hparent : s.parentOf a.1 = some f.val.1 := h.parentOf_addr (p := [f]) rfl
      have hgrand : s.parentOf f.val.1 = none := h.parentOf_frame (p := [])
      have hside := h.childOf_eq (p := []) (x := a.1) rfl .left
      rw [splay, hparent]
      dsimp only
      rw [hgrand]
      dsimp only
      obtain ⟨side, b, sib⟩ := f
      cases side with
      | left =>
        have hnode : Represents s (plug [] (.node (.node l a r) b sib)) := h
        have hup : Represents (s.rotate .right b.1) (plug [] (.node l a (.node r b sib))) := hnode.rightRotate
        rw [if_pos (hside.mpr rfl)]
        exact (ih hup hlt).congr (by simp [plug, Frame.fill, BinTree.inorder])
      | right =>
        have hnode : Represents s (plug [] (.node sib b (.node l a r))) := h
        have hup : Represents (s.rotate .left b.1) (plug [] (.node (.node sib b l) a r)) := hnode.leftRotate
        rw [if_neg fun hc => by cases hside.mp hc]
        exact (ih hup hlt).congr (by simp [plug, Frame.fill, BinTree.inorder])
    | f :: g :: p, h, hfuel =>
      have hlt : p.length < fuel := by
        rw [List.length_cons, List.length_cons] at hfuel
        omega
      rw [splay_round h]
      obtain ⟨fside, b, bsib⟩ := f
      obtain ⟨gside, c, csib⟩ := g
      cases gside with
      | left =>
        cases fside with
        | left =>
          have h₁ : Represents s (plug p (.node (.node (.node l a r) b bsib) c csib)) := h
          have h₂ : Represents (s.rotate .right c.1) (plug p (.node (.node l a r) b (.node bsib c csib))) :=
            h₁.rightRotate
          have h₃ : Represents ((s.rotate .right c.1).rotate .right b.1)
              (plug p (.node l a (.node r b (.node bsib c csib)))) := h₂.rightRotate
          exact (ih h₃ hlt).congr (inorder_plug_congr p (by simp [Frame.fill, BinTree.inorder]))
        | right =>
          have h₁ : Represents s (plug (⟨.left, c, csib⟩ :: p) (.node bsib b (.node l a r))) := h
          have h₂ : Represents (s.rotate .left b.1) (plug p (.node (.node (.node bsib b l) a r) c csib)) :=
            h₁.leftRotate
          have h₃ : Represents ((s.rotate .left b.1).rotate .right c.1)
              (plug p (.node (.node bsib b l) a (.node r c csib))) := h₂.rightRotate
          exact (ih h₃ hlt).congr (inorder_plug_congr p (by simp [Frame.fill, BinTree.inorder]))
      | right =>
        cases fside with
        | left =>
          have h₁ : Represents s (plug (⟨.right, c, csib⟩ :: p) (.node (.node l a r) b bsib)) := h
          have h₂ : Represents (s.rotate .right b.1) (plug p (.node csib c (.node l a (.node r b bsib)))) :=
            h₁.rightRotate
          have h₃ : Represents ((s.rotate .right b.1).rotate .left c.1)
              (plug p (.node (.node csib c l) a (.node r b bsib))) := h₂.leftRotate
          exact (ih h₃ hlt).congr (inorder_plug_congr p (by simp [Frame.fill, BinTree.inorder]))
        | right =>
          have h₁ : Represents s (plug p (.node csib c (.node bsib b (.node l a r)))) := h
          have h₂ : Represents (s.rotate .left c.1) (plug p (.node (.node csib c bsib) b (.node l a r))) :=
            h₁.leftRotate
          have h₃ : Represents ((s.rotate .left c.1).rotate .left b.1)
              (plug p (.node (.node (.node csib c bsib) b l) a r)) := h₂.leftRotate
          exact (ih h₃ hlt).congr (inorder_plug_congr p (by simp [Frame.fill, BinTree.inorder]))

/-! ## Insertion and lookup -/

/-- An insertion is refused without a change, or puts its node at the root, between its neighbours. -/
theorem insert_spec (entry : InternalRecord) (h : Represents s t) (hfuel : t.size < fuel) :
    (insert fuel entry s = some (.error (duplicateEntry entry), s) ∧
        SplayTree.insert entry (bare t) = .error (duplicateEntry entry)) ∨
      ∃ s' l' r' before after, insert fuel entry s = some (.ok (), s') ∧
        Represents s' (.node l' (s.next, entry) r') ∧ t.inorder = before ++ after ∧
        (BinTree.node l' (s.next, entry) r').inorder = before ++ (s.next, entry) :: after ∧
        SplayTree.insert entry (bare t) = .ok (bare (.node l' (s.next, entry) r')) := by
  unfold insert SplayTree.insert
  rcases h.place (nodeBefore id) entry hfuel.le with ⟨hplace, hd⟩ | ⟨q, hplace, hd, hplug, hlength, hs⟩
  · rw [hplace, hd]
    exact .inl ⟨rfl, rfl⟩
  · have hlt : q.length < fuel := by omega
    obtain ⟨s', l', r', hrun, hs', hin, heq⟩ := splay_spec hs hlt
    rw [hplace, hd]
    refine .inr ⟨s', l', r', before q, after q, ?_, hs', ?_, ?_, ?_⟩
    · exact congrArg (Option.map fun s => (Except.ok (), s)) hrun
    · rw [← hplug, inorder_plug]
      simp [BinTree.inorder]
    · rw [hin, inorder_plug]
      simp [BinTree.inorder]
    · rw [heq]
      rfl

/-- The address of a node of `t`, and the node with its path. -/
def PointsTo (t : AddrTree InternalRecord) (x : Nat) (ptr : SplayTree.Pointer) : Prop :=
  ∃ q l a r, x = a.1 ∧ plug q (.node l a r) = t ∧ ptr = (bare (.node l a r), barePath q)

/-- The lookup loop finds the addresses of the nodes that the loop on the tree finds. -/
theorem findLoop_refines (key : ArenaEntry) {whole : AddrTree InternalRecord} (h : Represents s whole)
    (hp : plug p t = whole) (hfuel : t.size ≤ fuel) {result last : Option Nat}
      {result' last' : Option SplayTree.Pointer}
    (hresult : Option.Rel (PointsTo whole) result result') (hlast : Option.Rel (PointsTo whole) last last') :
    ∃ x y, findLoop key s fuel (addr t) result last = some (x, y) ∧
      Option.Rel (PointsTo whole) x (SplayTree.findLoop key (bare t) (barePath p) result' last').1 ∧
      Option.Rel (PointsTo whole) y (SplayTree.findLoop key (bare t) (barePath p) result' last').2 := by
  induction t generalizing p fuel result last result' last' with
  | nil =>
    refine ⟨result, last, ?_, hresult, hlast⟩
    cases fuel with
    | zero => rfl
    | succ fuel => rfl
  | node l a r ihl ihr =>
    rw [BinTree.size] at hfuel
    obtain ⟨n, rfl⟩ : ∃ n, fuel = n + 1 := ⟨fuel - 1, by omega⟩
    have hcell : s.cell a.1 = _ := (hp ▸ h).node_cell
    have hhere : Option.Rel (PointsTo whole) (some a.1) (some (bare (.node l a r), barePath p)) :=
      .some ⟨p, l, a, r, rfl, hp, rfl⟩
    rw [addr_node, findLoop, hcell, Option.bind_some]
    show ∃ x y, _ ∧ Option.Rel _ x (SplayTree.findLoop key (.node (bare l) a.2 (bare r))
      (barePath p) result' last').1 ∧
      Option.Rel _ y (SplayTree.findLoop key (.node (bare l) a.2 (bare r)) (barePath p) result' last').2
    rw [SplayTree.findLoop]
    dsimp only
    by_cases hbelow : a.2.key.lt key = true
    · rw [if_pos hbelow, if_pos hbelow]
      exact ihr (p := ⟨.right, a, l⟩ :: p) hp (by omega) hresult hhere
    · rw [if_neg hbelow, if_neg hbelow]
      refine ihl (p := ⟨.left, a, r⟩ :: p) hp (by omega) ?_ hhere
      by_cases hhit : (a.2.key == key) = true
      · rw [if_pos hhit, if_pos hhit]
        exact hhere
      · rw [if_neg hhit, if_neg hhit]
        exact hresult

/-- The loop visits a node unless the tree is empty. -/
theorem findLoop_last {key : ArenaEntry} {t : BinTree InternalRecord} {p : Path InternalRecord}
    {result last : Option SplayTree.Pointer} (h : (SplayTree.findLoop key t p result last).2 = none) :
    t = .nil ∧ last = none := by
  induction t generalizing p result last with
  | nil => exact ⟨rfl, h⟩
  | node l a r ihl ihr =>
    rw [SplayTree.findLoop] at h
    split at h
    · cases (ihr h).2
    · cases (ihl h).2

/-- A lookup keeps the nodes in order and ends with the node it found, or the last it saw, at the root. -/
theorem find_spec (key : ArenaEntry) (h : Represents s t) (hfuel : t.size < fuel) :
    ∃ result last found s' t', findLoop key s fuel s.root none none = some (result, last) ∧
      findLatestByKey fuel key s = some (found, s') ∧ Represents s' t' ∧ t'.inorder = t.inorder ∧
      s'.root = result.or last ∧ found = (result.bind s'.cell).map Cell.val ∧
      SplayTree.findLatestByKey key (bare t) = (found, bare t') := by
  obtain ⟨result, last, hloop, hresult, hlast⟩ :=
    findLoop_refines key (p := []) h rfl hfuel.le Option.Rel.none Option.Rel.none
  rw [← h.root] at hloop
  have hlength : ∀ q l a r, plug q (.node l a r) = t → q.length < fuel := by
    intro q l a r hq
    have hle := length_le_size q (.node l a r)
    rw [hq] at hle
    omega
  unfold findLatestByKey SplayTree.findLatestByKey
  rw [hloop, Option.bind_some]
  generalize hzip : SplayTree.findLoop key (bare t) (barePath []) none none = pair at hresult hlast
  rw [show SplayTree.findLoop key (bare t) [] none none = pair from hzip]
  obtain ⟨ptr, ptr'⟩ := pair
  cases hresult with
  | some hpoints =>
    obtain ⟨q, l, a, r, rfl, hq, rfl⟩ := hpoints
    obtain ⟨s', l', r', hrun, hs', hin, hbare⟩ := splay_spec (hq ▸ h) (hlength q l a r hq)
    have hcell : s'.cell a.1 = some _ := hs'.cells.1
    refine ⟨some a.1, last, some a.2, s', .node l' a r', rfl, ?_, hs', hin.trans (by rw [hq]), hs'.root, ?_, ?_⟩
    · show (splay fuel a.1 s).bind _ = _
      rw [hrun, Option.bind_some, hcell]
      rfl
    · rw [Option.bind_some, hcell]
      rfl
    · rw [hbare]
      rfl
  | none =>
    cases hlast with
    | some hpoints =>
      obtain ⟨q, l, a, r, rfl, hq, rfl⟩ := hpoints
      obtain ⟨s', l', r', hrun, hs', hin, hbare⟩ := splay_spec (hq ▸ h) (hlength q l a r hq)
      refine ⟨none, some a.1, none, s', .node l' a r', rfl, ?_, hs', hin.trans (by rw [hq]), hs'.root, rfl, ?_⟩
      · show (splay fuel a.1 s).map _ = _
        rw [hrun]
        rfl
      · rw [hbare]
    | none =>
      have hnil : bare t = .nil := (findLoop_last (congrArg Prod.snd hzip)).1
      refine ⟨none, none, none, s, t, rfl, rfl, h, rfl, ?_, rfl, rfl⟩
      cases t with
      | nil => exact h.root
      | node l a r => cases hnil

/-! ## Every interleaving of insertions and lookups -/

/-- The nodes of a valid tree are in order. -/
theorem validate_eq (h : Represents s t) (hordered : Ordered (SplayTree.records (bare t))) (hfuel : t.size ≤ fuel) :
    validate s fuel = some true := by
  have hinorder : (bare t).inorder.Pairwise fun a b => nodeBefore id a b = true := List.pairwise_map.mp hordered
  unfold validate
  rw [h.orderingCorrect hfuel hinorder, h.parentLinksValid hfuel]
  rfl

theorem insert_ordered {entry : InternalRecord} {b b' : BinTree InternalRecord} (h : Ordered (SplayTree.records b))
    (hins : SplayTree.insert entry b = .ok b') : Ordered (SplayTree.records b') := by
  have hrecords := SplayTree.insert_records entry h
  rw [hins] at hrecords
  exact Driver.insert_ordered h hrecords.symm

theorem find_ordered {key : ArenaEntry} {b b' : BinTree InternalRecord} {found : Option InternalRecord}
    (h : Ordered (SplayTree.records b)) (hfind : SplayTree.findLatestByKey key b = (found, b')) :
    Ordered (SplayTree.records b') := by
  have hrecords := (SplayTree.find_records key h).2
  rw [hfind] at hrecords
  exact hrecords.symm ▸ h

theorem size_congr {t t' : AddrTree InternalRecord} (h : t'.inorder = t.inorder) : t'.size = t.size := by
  rw [t'.size_eq, t.size_eq, h]

/-- What a call does at a tree: it ends, keeps the links and the order, and leaves at the root the node it is about.
A record is a duplicate only of a cell with the same key and sequence number. -/
structure Sound (fuel : Nat) (s : Memory) : Prop where
  valid : validate s fuel = some true
  splay : ∃ cells, s.traverse fuel = some cells ∧ ∀ c ∈ cells, ∃ s', splay fuel c.1 s = some s' ∧
    s'.traverse fuel = some cells ∧ s'.parentLinksValid fuel = some true ∧ s'.root = some c.1
  insert : ∀ entry, (insert fuel entry s = some (.error (duplicateEntry entry), s) ∧
      ∃ cells, s.traverse fuel = some cells ∧ ∃ c ∈ cells, c.2.key = entry.key ∧
        c.2.seqNum = entry.seqNum) ∨
    ∃ s' left right, insert fuel entry s = some (.ok (), s') ∧ s'.root = some s.next ∧
      s.traverse fuel = some (left ++ right) ∧ s'.traverse fuel = some (left ++ (s.next, entry) :: right) ∧
      validate s' fuel = some true
  find : ∀ key, ∃ result last found s', findLoop key s fuel s.root none none = some (result, last) ∧
    findLatestByKey fuel key s = some (found, s') ∧ s'.root = result.or last ∧
    found = (result.bind s'.cell).map Cell.val ∧ s'.traverse fuel = s.traverse fuel ∧ validate s' fuel = some true

theorem sound_of (h : Represents s t) (hordered : Ordered (SplayTree.records (bare t))) (hfuel : t.size < fuel) :
    Sound fuel s := by
  refine ⟨validate_eq h hordered hfuel.le, ⟨t.inorder, h.traverse hfuel.le, ?_⟩, ?_, ?_⟩
  · intro c hc
    obtain ⟨q, l, r, hq⟩ := exists_plug_of_mem hc
    have hlength := length_le_size q (.node l c r)
    rw [hq] at hlength
    have hlt : q.length < fuel := by omega
    obtain ⟨s', l', r', hrun, hs', hin, -⟩ := splay_spec (hq ▸ h) hlt
    rw [hq] at hin
    have hsize := size_congr hin
    refine ⟨s', hrun, ?_, hs'.parentLinksValid (by omega), hs'.root⟩
    rw [hs'.traverse (by omega), hin]
  · intro entry
    rcases insert_spec entry h hfuel with ⟨hins, htree⟩ | ⟨s', l', r', left, right, hins, hs', hold, hnew,
      htree⟩
    · have hrecords := SplayTree.insert_records entry hordered
      rw [htree] at hrecords
      obtain ⟨-, x, hx, hsame⟩ := Driver.insert_refused hrecords.symm
      rw [SplayTree.records, treeRecords, bare, inorder_map, List.map_map] at hx
      obtain ⟨c, hc, rfl⟩ := List.mem_map.mp hx
      exact .inl ⟨hins, t.inorder, h.traverse hfuel.le, c, hc, hsame⟩
    · have hsize : (BinTree.node l' (s.next, entry) r').size ≤ fuel := by
        rw [BinTree.size_eq, hnew, List.length_append, List.length_cons]
        rw [BinTree.size_eq, hold, List.length_append] at hfuel
        omega
      refine .inr ⟨s', left, right, hins, hs'.root, ?_, ?_, validate_eq hs' (insert_ordered hordered htree) hsize⟩
      · rw [h.traverse hfuel.le, hold]
      · rw [hs'.traverse hsize, hnew]
  · intro key
    obtain ⟨result, last, found, s', t', hloop, hfind, hs', hin, hroot, hfound, htree⟩ := find_spec key h hfuel
    have hsize := size_congr hin
    refine ⟨result, last, found, s', hloop, hfind, hroot, hfound, ?_,
      validate_eq hs' (find_ordered hordered htree) (by omega)⟩
    rw [hs'.traverse (by omega), h.traverse hfuel.le, hin]

/-- One call. -/
theorem step_spec (op : Op) (h : Represents s t) (hordered : Ordered (SplayTree.records (bare t)))
    (hfuel : t.size < fuel) :
    ∃ s' t', step fuel s op = some s' ∧ Represents s' t' ∧ Ordered (SplayTree.records (bare t')) ∧
      t'.size ≤ t.size + 1 := by
  cases op with
  | insert entry =>
    rw [step]
    rcases insert_spec entry h hfuel with ⟨hins, -⟩ | ⟨s', l', r', left, right, hins, hs', hold, hnew, htree⟩
    · rw [hins]
      exact ⟨s, t, rfl, h, hordered, Nat.le_succ _⟩
    · rw [hins]
      refine ⟨s', _, rfl, hs', insert_ordered hordered htree, ?_⟩
      rw [BinTree.size_eq, t.size_eq, hnew, hold, List.length_append, List.length_append, List.length_cons]
      omega
  | find key =>
    obtain ⟨result, last, found, s', t', hloop, hfind, hs', hin, hroot, hfound, htree⟩ := find_spec key h hfuel
    rw [step, hfind]
    refine ⟨s', t', rfl, hs', find_ordered hordered htree, ?_⟩
    rw [size_congr hin]
    omega

theorem run_represents (ops : List Op) (h : Represents s t) (hordered : Ordered (SplayTree.records (bare t)))
    (hfuel : t.size + ops.length < fuel) :
    ∃ s' t', run fuel ops s = some s' ∧ Represents s' t' ∧ Ordered (SplayTree.records (bare t')) ∧
      t'.size < fuel := by
  induction ops generalizing s t with
  | nil => exact ⟨s, t, rfl, h, hordered, hfuel⟩
  | cons op ops ih =>
    rw [List.length_cons] at hfuel
    have hlt : t.size < fuel := by omega
    obtain ⟨s', t', hstep, hs', hordered', hsize⟩ := step_spec op h hordered hlt
    rw [run, hstep]
    exact ih hs' hordered' (by omega)

/-- Every run of insertions and lookups ends, at a tree where every call does what it should. -/
theorem run_sound (ops : List Op) (fuel : Nat) (hfuel : ops.length < fuel) :
    ∃ s, run fuel ops .empty = some s ∧ Sound fuel s := by
  obtain ⟨s, t, hrun, hs, hordered, hsize⟩ := run_represents ops represents_empty List.Pairwise.nil
    (by rwa [BinTree.size, Nat.zero_add])
  exact ⟨s, hrun, sound_of hs hordered hsize⟩

theorem run_sound_three :
    let record (b : UInt8) : InternalRecord := ⟨.ofByte b, .ofByte 0, .put, 1⟩
    ∃ s, run 4 [.insert (record 2), .insert (record 1), .find (.ofByte 3)] .empty = some s ∧ Sound 4 s :=
  run_sound _ 4 (by decide)

end

end LinkedSplayTree

end Kvdb
