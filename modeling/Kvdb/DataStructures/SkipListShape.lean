import Kvdb.DataStructures.SkipList
import Mathlib.Data.List.Sort

/-!
# The shape of the skip list, and its validator

`insertAll` inserts records in order, whatever heights are drawn.  Each level it
leads to is an ordered part of the level below, and level 0 has the accepted
records (`insertAll_levels`).

`SkipList::validate` also compares the head, whose key is empty and whose
sequence number is 0, with the first node of each level.  A record with the empty
key and a later sequence number orders before that head, and the validator
reports a list that is in order.
-/

namespace Kvdb

open Links

namespace SkipList

/-- The nodes of a level. -/
def levelNodes (s : SkipList) (level : Nat) : List Nat := follow (s.next level) (s.size + 1) 0

/-- `dump_level_inorder`. -/
def dumpLevelInorder (level : Nat) (s : SkipList) : List InternalRecord :=
  if level ≥ MAX_LEVEL then [] else (s.levelNodes level).map s.record

/-- A link of the node leads to a record before its own. -/
def outOfOrder (s : SkipList) (current : Nat) : Bool :=
  (List.range (s.height current)).any fun level =>
    match s.next level current with
    | none => false
    | some a => internalBefore (s.record a) (s.record current)

/-- The loop of `validate`; `none` when it runs out of fuel. -/
def validateLoop (s : SkipList) : Nat → Nat → Option Bool
  | 0, _ => none
  | fuel + 1, current =>
    if s.outOfOrder current then some false
    else
      match s.next 0 current with
      | none => some true
      | some a => validateLoop s fuel a

/-- `SkipList::validate`. -/
def validate (s : SkipList) : Option Bool := validateLoop s (s.size + 1) 0

/-- Insert records with the draws for their heights, and collect the accepted ones. -/
def insertAll : List (InternalRecord × (Nat → Bool)) → SkipList → SkipList × List InternalRecord
  | [], s => (s, [])
  | (entry, promote) :: rest, s =>
    match insert entry promote s with
    | .error _ => insertAll rest s
    | .ok s' => ((insertAll rest s').1, entry :: (insertAll rest s').2)

/-! ## Shape -/

/-- Each level is an ordered part of the one below, and level 0 has the accepted records. -/
structure Shape (s : SkipList) (accepted : List InternalRecord) : Prop where
  ordered : ∀ level, Ordered ((s.levelNodes level).map s.record)
  sub : ∀ level, (s.levelNodes (level + 1)).Sublist (s.levelNodes level)
  ground : ((s.levelNodes 0).map s.record).Perm accepted
  top : ∀ level, s.currentLevel ≤ level → s.levelNodes level = []

/-- Chains in which a node is on all levels below its height, and a head as the constructor makes it. -/
structure Tall (s : SkipList) (chain : Nat → List Nat) : Prop where
  chains : Chains s chain
  level : ∀ level, ∀ a ∈ chain 0, level < s.height a → a ∈ chain level
  head : s.record 0 = ⟨.empty, .empty, .undefined, 0⟩
  headHeight : s.height 0 = MAX_LEVEL

section

variable {s : SkipList} {chain : Nat → List Nat}

theorem tall_init : Tall init fun _ => [] := by
  refine ⟨chains_init, ?_, rfl, rfl⟩
  intro level a ha
  cases ha

theorem Tall.insert (h : Tall s chain) {entry : InternalRecord}
    (hsep : ∀ a ∈ chain 0, internalBefore (s.record a) entry = true ∨ internalBefore entry (s.record a) = true)
    (height : Nat) : Tall (spliced s chain entry height) (insertChain s chain entry height) := by
  refine ⟨h.chains.insert hsep height, ?_, ?_, ?_⟩
  · intro level a ha hlt
    change level < Function.update s.height (s.size + 1) height a at hlt
    rcases mem_insertChain.mp ha with ha | ⟨-, rfl⟩
    · have hbound := h.chains.bound 0 a ha
      rw [Function.update_of_ne (by omega)] at hlt
      exact mem_insertChain.mpr (.inl (h.level level a ha hlt))
    · rw [Function.update_self] at hlt
      exact mem_insertChain.mpr (.inr ⟨hlt, rfl⟩)
  · show Function.update s.record (s.size + 1) entry 0 = _
    rw [Function.update_of_ne (by omega)]
    exact h.head
  · show Function.update s.height (s.size + 1) height 0 = _
    rw [Function.update_of_ne (by omega)]
    exact h.headHeight

theorem Chains.levelNodes_eq (h : Chains s chain) (level : Nat) : s.levelNodes level = chain level :=
  follow_eq (h.linked level) (Nat.lt_succ_of_le (h.length_le level))

/-- An ordered level whose nodes are on another ordered level is a sublist of it. -/
theorem Chains.sublist (h : Chains s chain) (level : Nat) : (chain (level + 1)).Sublist (chain level) := by
  have hanti : Std.Antisymm fun a b => internalBefore (s.record a) (s.record b) = true := by
    constructor
    intro a b hab hba
    rw [internalBefore_asymm _ _ hab] at hba
    cases hba
  have hnodup := (List.nodup_cons.mp (h.nodup (level + 1))).2
  exact List.sublist_of_subperm_of_pairwise (hnodup.subperm (h.sub level))
    (List.pairwise_map.mp (h.ordered (level + 1))) (List.pairwise_map.mp (h.ordered level))

theorem Chains.shape (h : Chains s chain) {accepted : List InternalRecord}
    (hground : ((chain 0).map s.record).Perm accepted) : Shape s accepted := by
  refine ⟨?_, ?_, ?_, ?_⟩
  · intro level
    rw [h.levelNodes_eq]
    exact h.ordered level
  · intro level
    rw [h.levelNodes_eq, h.levelNodes_eq]
    exact h.sublist level
  · rw [h.levelNodes_eq]
    exact hground
  · intro level hle
    rw [h.levelNodes_eq]
    exact h.top level hle

/-- The records of level 0 after a splice. -/
theorem Chains.spliced_perm (h : Chains s chain) (entry : InternalRecord) {height : Nat} (hpos : 0 < height) :
    ((insertChain s chain entry height 0).map (spliced s chain entry height).record).Perm
      (entry :: (chain 0).map s.record) := by
  have hold : (chain 0).map (Function.update s.record (s.size + 1) entry) = (chain 0).map s.record := by
    apply List.map_congr_left
    intro a ha
    have hbound := h.bound 0 a ha
    exact Function.update_of_ne (by omega) _ _
  have hperm : (insertChain s chain entry height 0).Perm ((s.size + 1) :: chain 0) := by
    unfold insertChain
    rw [if_pos hpos]
    refine List.perm_middle.trans (List.Perm.cons _ ?_)
    rw [List.takeWhile_append_dropWhile]
  refine (hperm.map _).trans ?_
  show ((Function.update s.record (s.size + 1) entry (s.size + 1)) ::
    (chain 0).map (Function.update s.record (s.size + 1) entry)).Perm _
  rw [Function.update_self, hold]

theorem Tall.afterAll (h : Tall s chain) (ops : List (InternalRecord × (Nat → Bool))) :
    ∃ chain', Tall (insertAll ops s).1 chain' ∧
      ((chain' 0).map (insertAll ops s).1.record).Perm ((insertAll ops s).2 ++ (chain 0).map s.record) := by
  induction ops generalizing s chain with
  | nil => exact ⟨chain, h, List.Perm.refl _⟩
  | cons op ops ih =>
    obtain ⟨entry, promote⟩ := op
    rw [SkipList.insertAll]
    rcases h.chains.insert_cases entry promote with ⟨hins, -⟩ | ⟨hins, hsep⟩
    · rw [hins]
      exact ih h
    · rw [hins]
      dsimp only
      have hpos := randomHeight_pos promote
      obtain ⟨chain', htall, hperm⟩ := ih (h.insert hsep (randomHeight promote))
      refine ⟨chain', htall, hperm.trans ?_⟩
      refine ((h.chains.spliced_perm entry hpos).append_left _).trans ?_
      exact List.perm_middle

theorem insertAll_levels (ops : List (InternalRecord × (Nat → Bool))) :
    Shape (insertAll ops init).1 (insertAll ops init).2 := by
  obtain ⟨chain, htall, hperm⟩ := tall_init.afterAll ops
  rw [List.map_nil, List.append_nil] at hperm
  exact htall.chains.shape hperm

/-! ## The validator -/

theorem outOfOrder_iff {current : Nat} :
    s.outOfOrder current = true ↔ ∃ level a, level < s.height current ∧ s.next level current = some a ∧
      internalBefore (s.record a) (s.record current) = true := by
  unfold outOfOrder
  rw [List.any_eq_true]
  constructor
  · rintro ⟨level, hlevel, hwrong⟩
    split at hwrong
    · cases hwrong
    · next a hnext => exact ⟨level, a, List.mem_range.mp hlevel, hnext, hwrong⟩
  · rintro ⟨level, a, hlevel, hnext, hbefore⟩
    refine ⟨level, List.mem_range.mpr hlevel, ?_⟩
    rw [hnext]
    exact hbefore

/-- The loop looks at every node of level 0. -/
theorem validateLoop_eq {current : Nat} {l : List Nat} (h : Linked (s.next 0) current l) {fuel : Nat}
    (hfuel : l.length < fuel) : validateLoop s fuel current = some (!(current :: l).any s.outOfOrder) := by
  induction l generalizing current fuel with
  | nil =>
    obtain ⟨fuel, rfl⟩ : ∃ n, fuel = n + 1 := ⟨fuel - 1, by omega⟩
    rw [validateLoop, h.next_head]
    cases hout : s.outOfOrder current with
    | true => simp [hout]
    | false => simp [hout]
  | cons b l ih =>
    rw [List.length_cons] at hfuel
    obtain ⟨fuel, rfl⟩ : ∃ n, fuel = n + 1 := ⟨fuel - 1, by omega⟩
    have hrest := ih h.2 (show l.length < fuel by omega)
    rw [validateLoop, h.next_head, List.any_cons]
    cases hout : s.outOfOrder current with
    | true => rfl
    | false =>
      rw [if_neg (by decide)]
      exact hrest

/-- The links of a node in the list are in order. -/
theorem Tall.node_in_order (h : Tall s chain) {a : Nat} (ha : a ∈ chain 0) : s.outOfOrder a = false := by
  rw [← Bool.not_eq_true, outOfOrder_iff]
  rintro ⟨level, b, hlevel, hnext, hbefore⟩
  have hmem := h.level level a ha hlevel
  have hab := (h.chains.linked level).next_of_mem (List.pairwise_map.mp (h.chains.ordered level)) hmem hnext
  rw [internalBefore_asymm _ _ hab] at hbefore
  cases hbefore

/-- What orders before the head: the empty key with a sequence number behind 0. -/
theorem internalBefore_head (r : InternalRecord) :
    internalBefore r ⟨.empty, .empty, .undefined, 0⟩ = true ↔ r.key = .empty ∧ r.seqNum ≠ 0 := by
  rw [internalBefore_iff]
  have hleast : ¬ r.key < ArenaEntry.empty := by
    rw [ArenaEntry.lt_iff_codes]
    exact List.not_lt_nil _
  have hseq : 0 < r.seqNum ↔ r.seqNum ≠ 0 := by
    rw [UInt64.lt_iff_toNat_lt, ← UInt64.toNat_inj.ne]
    exact Nat.pos_iff_ne_zero
  constructor
  · rintro (hlt | ⟨hkey, hlt⟩)
    · exact absurd hlt hleast
    · exact ⟨hkey, hseq.mp hlt⟩
  · rintro ⟨hkey, hne⟩
    exact .inr ⟨hkey, hseq.mpr hne⟩

/-- The head is out of order when a record with the empty key and a later sequence number is there. -/
theorem Tall.head_outOfOrder (h : Tall s chain) :
    s.outOfOrder 0 = true ↔ ∃ r ∈ (chain 0).map s.record, r.key = .empty ∧ r.seqNum ≠ 0 := by
  rw [outOfOrder_iff]
  constructor
  · rintro ⟨level, a, -, hnext, hbefore⟩
    rw [h.head, internalBefore_head] at hbefore
    rw [(h.chains.linked level).next_head] at hnext
    have hsub : chain level ⊆ chain 0 := by
      clear hnext
      induction level with
      | zero => exact fun _ hx => hx
      | succ level ih => exact fun _ hx => ih (h.chains.sub level hx)
    exact ⟨_, List.mem_map_of_mem (hsub (List.mem_of_head? hnext)), hbefore⟩
  · rintro ⟨r, hr, hkey, hseq⟩
    obtain ⟨b, hb, rfl⟩ := List.mem_map.mp hr
    obtain ⟨a, l, hal⟩ : ∃ a l, chain 0 = a :: l := List.exists_cons_of_ne_nil (List.ne_nil_of_mem hb)
    refine ⟨0, a, ?_, ?_, ?_⟩
    · rw [h.headHeight]
      decide
    · rw [(h.chains.linked 0).next_head, hal]
      rfl
    · rw [h.head]
      have hhead := (internalBefore_head _).mpr ⟨hkey, hseq⟩
      rw [hal] at hb
      rcases List.mem_cons.mp hb with rfl | hb
      · exact hhead
      · -- the first record of level 0 is before it
        have hord := List.pairwise_map.mp (h.chains.ordered 0)
        rw [hal] at hord
        exact internalBefore_trans ((List.pairwise_cons.mp hord).1 b hb) hhead

theorem Tall.validate_eq (h : Tall s chain) : ∃ b, s.validate = some b ∧
    (b = true ↔ ∀ r ∈ (chain 0).map s.record, r.key = .empty → r.seqNum = 0) := by
  refine ⟨_, validateLoop_eq (h.chains.linked 0) (Nat.lt_succ_of_le (h.chains.length_le 0)), ?_⟩
  have hrest : (chain 0).any s.outOfOrder = false := by
    rw [List.any_eq_false]
    intro a ha
    rw [h.node_in_order ha]
    decide
  rw [List.any_cons, hrest, Bool.or_false, Bool.not_eq_true', ← Bool.not_eq_true, h.head_outOfOrder]
  push Not
  rfl

/-- Level 0 has a record with the key and the sequence number of each one that was inserted, and no others. -/
theorem Tall.afterAll_same (h : Tall s chain) (ops : List (InternalRecord × (Nat → Bool))) :
    (∀ r ∈ (insertAll ops s).2, ∃ op ∈ ops, op.1 = r) ∧
      ∀ op ∈ ops, ∃ r ∈ (insertAll ops s).2 ++ (chain 0).map s.record, r.key = op.1.key ∧
        r.seqNum = op.1.seqNum := by
  induction ops generalizing s chain with
  | nil =>
    constructor
    · intro r hr
      cases hr
    · intro op hop
      cases hop
  | cons op ops ih =>
    obtain ⟨entry, promote⟩ := op
    rw [SkipList.insertAll]
    rcases h.chains.insert_cases entry promote with ⟨hins, a, ha, hea, hae⟩ | ⟨hins, hsep⟩
    · rw [hins]
      obtain ⟨hfrom, hto⟩ := ih h
      constructor
      · intro r hr
        obtain ⟨op, hop, heq⟩ := hfrom r hr
        exact ⟨op, List.mem_cons_of_mem _ hop, heq⟩
      · intro op hop
        rcases List.mem_cons.mp hop with rfl | hop
        · refine ⟨s.record a, List.mem_append_right _ (List.mem_map_of_mem ha), ?_⟩
          exact same_of_not_before hae hea
        · exact hto op hop
    · rw [hins]
      dsimp only
      have hpos := randomHeight_pos promote
      obtain ⟨hfrom, hto⟩ := ih (h.insert hsep (randomHeight promote))
      constructor
      · intro r hr
        rcases List.mem_cons.mp hr with rfl | hr
        · exact ⟨(r, promote), List.mem_cons_self, rfl⟩
        · obtain ⟨op, hop, heq⟩ := hfrom r hr
          exact ⟨op, List.mem_cons_of_mem _ hop, heq⟩
      · intro op hop
        rcases List.mem_cons.mp hop with rfl | hop
        · exact ⟨entry, by simp, rfl, rfl⟩
        · obtain ⟨r, hr, hsame⟩ := hto op hop
          refine ⟨r, ?_, hsame⟩
          rcases List.mem_append.mp hr with hr | hr
          · simp [hr]
          · have hmem := (h.chains.spliced_perm entry hpos).mem_iff.mp hr
            rcases List.mem_cons.mp hmem with rfl | hmem
            · simp
            · exact List.mem_append_right _ hmem

/-- **The skip list.**  Its shape is right for all records and heights, and the validator says so unless a
record has the empty key and a sequence number other than 0. -/
theorem insertAll_validate (ops : List (InternalRecord × (Nat → Bool))) :
    Shape (insertAll ops init).1 (insertAll ops init).2 ∧
      ((insertAll ops init).1.validate = some true ↔ ∀ op ∈ ops, op.1.key = .empty → op.1.seqNum = 0) := by
  refine ⟨insertAll_levels ops, ?_⟩
  obtain ⟨chain, htall, hperm⟩ := tall_init.afterAll ops
  obtain ⟨hfrom, hto⟩ := tall_init.afterAll_same ops
  rw [List.map_nil, List.append_nil] at hperm hto
  obtain ⟨b, hvalidate, hb⟩ := htall.validate_eq
  rw [hvalidate, Option.some.injEq, hb]
  constructor
  · intro hall op hop hkey
    obtain ⟨r, hr, hrkey, hrseq⟩ := hto op hop
    rw [← hrseq]
    exact hall r (hperm.mem_iff.mpr hr) (hrkey.trans hkey)
  · intro hall r hr hkey
    obtain ⟨op, hop, rfl⟩ := hfrom r (hperm.mem_iff.mp hr)
    exact hall op hop hkey

/-- A put of the empty key, first in its list, is taken for a fault. -/
theorem validate_empty_key :
    (insertAll [(⟨.empty, .ofByte 97, .put, 1⟩, fun _ => false)] init).2 = [⟨.empty, .ofByte 97, .put, 1⟩] ∧
      (insertAll [(⟨.empty, .ofByte 97, .put, 1⟩, fun _ => false)] init).1.validate = some false := by
  decide

end

end SkipList

end Kvdb
