import Mathlib.Data.List.Perm.Subperm
import Kvdb.Engine.MemTable
import Kvdb.Lib.Linked
import Kvdb.DataStructures.Trees

/-!
# Skip list

`SkipList` (`data_structures/skip_list.cpp`): nodes at addresses, each with one
link a level; the head is at address 0.  A search walks along the top level as
long as the next record is before the target, then goes on one level below.

On each level the links run through an ordered list of nodes, and every node of
a level is on the level below (`Chains`).  So the search ends behind the last
record before the target (`searchLoop_eq`), on all levels at once.
-/

namespace Kvdb

open Links

structure SkipList where
  /-- the record of the node at an address -/
  record : Nat → InternalRecord
  /-- `next[level]` of the node at an address -/
  next : Nat → Nat → Option Nat
  /-- the number of links of the node at an address -/
  height : Nat → Nat
  /-- the nodes made so far: addresses 1 to `size` -/
  size : Nat
  currentLevel : Nat

namespace SkipList

def MAX_LEVEL : Nat := 20

/-- The list with its head. -/
def init : SkipList :=
  { record := fun _ => ⟨.empty, .empty, .undefined, 0⟩
    next := fun _ _ => none
    height := fun _ => MAX_LEVEL
    size := 0
    currentLevel := 1 }

/-- The loop of `random_height`; `promote h` is the draw made at height `h`. -/
def randomHeightLoop (promote : Nat → Bool) : Nat → Nat → Nat
  | 0, height => height
  | fuel + 1, height =>
    if height < MAX_LEVEL && promote height then randomHeightLoop promote fuel (height + 1) else height

/-- `random_height`. -/
def randomHeight (promote : Nat → Bool) : Nat := randomHeightLoop promote MAX_LEVEL 1

/-- The loop over the levels, from the top down: the node reached, and `update` from level 0 on. -/
def searchLoop (s : SkipList) (go : InternalRecord → Bool) : Nat → Nat → List Nat → Nat × List Nat
  | 0, current, update => (current, update)
  | level + 1, current, update =>
    let current := walk (s.next level) (fun a => go (s.record a)) s.size current
    searchLoop s go level current (current :: update)

/-- The loop that links the new node on the levels below its height. -/
def linkLoop (update : Nat → Nat) (new : Nat) : Nat → (Nat → Nat → Option Nat) → Nat → Nat → Option Nat
  | 0, next => next
  | level + 1, next =>
    let next := linkLoop update new level next
    Function.update next level (link (next level) (update level) new)

/-- `SkipList::insert`, with the draws for the height. -/
def insert (entry : InternalRecord) (promote : Nat → Bool) (s : SkipList) : Except Status SkipList :=
  let (current, update) := s.searchLoop (fun r => internalBefore r entry) s.currentLevel 0 []
  let duplicate : Bool :=
    match s.next 0 current with
    | none => false
    | some a => !internalBefore entry (s.record a) && !internalBefore (s.record a) entry
  if duplicate then .error (duplicateEntry entry)
  else
    let height := randomHeight promote
    -- above the current level `update` is the head
    .ok
      { record := Function.update s.record (s.size + 1) entry
        next := linkLoop (fun level => update.getD level 0) (s.size + 1) height s.next
        height := Function.update s.height (s.size + 1) height
        size := s.size + 1
        currentLevel := if height > s.currentLevel then height else s.currentLevel }

/-- `SkipList::find_latest_by_key`. -/
def findLatestByKey (key : ArenaEntry) (s : SkipList) : Option InternalRecord :=
  match s.next 0 (s.searchLoop (fun r => r.key.lt key) s.currentLevel 0 []).1 with
  | none => none
  | some a => if (s.record a).key ≠ key then none else some (s.record a)

/-- `SkipList::dump_inorder`: the records of level 0. -/
def dumpInorder (s : SkipList) : List InternalRecord :=
  (follow (s.next 0) (s.size + 1) 0).map s.record

/-! ## Chains -/

/-- The nodes of each level, in order of their records. -/
structure Chains (s : SkipList) (chain : Nat → List Nat) : Prop where
  linked : ∀ level, Linked (s.next level) 0 (chain level)
  bound : ∀ level, ∀ a ∈ chain level, 0 < a ∧ a ≤ s.size
  sub : ∀ level, chain (level + 1) ⊆ chain level
  ordered : ∀ level, Ordered ((chain level).map s.record)
  top : ∀ level, s.currentLevel ≤ level → chain level = []
  pos : 0 < s.currentLevel

theorem chains_init : Chains init fun _ => [] where
  linked _ := rfl
  bound _ := by simp
  sub _ := by simp
  ordered _ := List.Pairwise.nil
  top _ _ := rfl
  pos := Nat.one_pos

section

variable {s : SkipList} {chain : Nat → List Nat} {go : InternalRecord → Bool}

theorem Chains.nodup (h : Chains s chain) (level : Nat) : (0 :: chain level).Nodup := by
  refine List.nodup_cons.mpr ⟨fun h0 => absurd (h.bound level 0 h0).1 (Nat.lt_irrefl 0), ?_⟩
  refine (List.pairwise_map.mp (h.ordered level)).imp fun {a b} hab heq => ?_
  subst heq
  have := internalBefore_asymm _ _ hab
  rw [hab] at this
  cases this

theorem Chains.length_le (h : Chains s chain) (level : Nat) : (chain level).length ≤ s.size := by
  have hsub : chain level ⊆ List.range' 1 s.size := by
    intro a ha
    have := h.bound level a ha
    rw [List.mem_range']
    exact ⟨a - 1, by omega, by omega⟩
  have hle := ((List.nodup_cons.mp (h.nodup level)).2.subperm hsub).length_le
  simpa using hle

theorem mem_takeWhile_of {α : Type} {p : α → Bool} {l : List α}
    (hmono : l.Pairwise fun x y => p y = true → p x = true) {x : α} (hx : x ∈ l) (hp : p x = true) :
    x ∈ l.takeWhile p := by
  induction l with
  | nil => cases hx
  | cons y ys ih =>
    obtain ⟨hy, hys⟩ := List.pairwise_cons.mp hmono
    have hpy : p y = true := by
      rcases List.mem_cons.mp hx with rfl | hx
      · exact hp
      · exact hy x hx hp
    rw [List.takeWhile_cons, if_pos hpy]
    rcases List.mem_cons.mp hx with rfl | hx
    · exact List.mem_cons_self
    · exact List.mem_cons_of_mem y (ih hys hx)

/-- The test of a search: once it fails, it fails for all later records. -/
def Downward (go : InternalRecord → Bool) : Prop :=
  ∀ a b, internalBefore a b = true → go b = true → go a = true

/-- Where the search stops on a level. -/
def stop (s : SkipList) (chain : Nat → List Nat) (go : InternalRecord → Bool) (level : Nat) : Nat :=
  lastOf (fun a => go (s.record a)) 0 (chain level)

/-- Where the search stops on a level it has not yet passed the stop of the level below. -/
theorem Chains.stop_below (h : Chains s chain) (hgo : Downward go) (level : Nat) :
    stop s chain go (level + 1) ∈ 0 :: (chain level).takeWhile fun a => go (s.record a) := by
  have hlast : stop s chain go (level + 1) ∈ 0 :: (chain (level + 1)).takeWhile fun a => go (s.record a) :=
    lastOf_mem
  rcases List.mem_cons.mp hlast with h0 | hmem
  · rw [h0]
    exact List.mem_cons_self
  · have hpass : go (s.record (stop s chain go (level + 1))) = true :=
      List.mem_takeWhile_imp (p := fun a => go (s.record a)) hmem
    have hbelow := h.sub level (List.takeWhile_subset _ hmem)
    refine List.mem_cons_of_mem 0 (mem_takeWhile_of ?_ hbelow hpass)
    exact (List.pairwise_map.mp (h.ordered level)).imp fun hab => hgo _ _ hab

/-- The search leaves the stops of all levels in `update` and ends at that of level 0. -/
theorem Chains.searchLoop_eq (h : Chains s chain) (hgo : Downward go) (n current : Nat) (update : List Nat)
    (hcur : ∀ m, n = m + 1 → current ∈ 0 :: (chain m).takeWhile fun a => go (s.record a)) :
    s.searchLoop go n current update =
      (if n = 0 then current else stop s chain go 0, (List.range n).map (stop s chain go) ++ update) := by
  induction n generalizing current update with
  | zero => simp [searchLoop]
  | succ n ih =>
    have hwalk : walk (s.next n) (fun a => go (s.record a)) s.size current = stop s chain go n :=
      walk_eq_lastOf (h.linked n) (h.length_le n) (hcur n rfl)
    rw [searchLoop]
    simp only [hwalk]
    rw [ih]
    · have hfst : (if n = 0 then stop s chain go n else stop s chain go 0) = stop s chain go 0 := by
        split
        · next h0 => rw [h0]
        · rfl
      rw [hfst, if_neg (by omega), List.range_succ, List.map_append, List.append_assoc]
      rfl
    · intro m hm
      subst hm
      exact h.stop_below hgo m

theorem Chains.search (h : Chains s chain) (hgo : Downward go) :
    s.searchLoop go s.currentLevel 0 [] =
      (stop s chain go 0, (List.range s.currentLevel).map (stop s chain go)) := by
  rw [h.searchLoop_eq hgo _ _ _ (fun _ _ => List.mem_cons_self), if_neg (Nat.pos_iff_ne_zero.mp h.pos),
    List.append_nil]

/-- `update` holds the stop of every level: above the top it is the head. -/
theorem Chains.update_eq (h : Chains s chain) (level : Nat) :
    ((List.range s.currentLevel).map (stop s chain go)).getD level 0 = stop s chain go level := by
  by_cases hl : level < s.currentLevel
  · simp [hl]
  · rw [stop, h.top level (by omega)]
    simp [hl, lastOf]

/-! ## Insertion -/

theorem linkLoop_eq (update : Nat → Nat) (new height : Nat) (next : Nat → Nat → Option Nat) (level : Nat) :
    linkLoop update new height next level =
      if level < height then link (next level) (update level) new else next level := by
  induction height with
  | zero => simp [linkLoop]
  | succ height ih =>
    simp only [linkLoop]
    by_cases heq : level = height
    · subst heq
      rw [Function.update_self, if_pos (by omega), ih, if_neg (by omega)]
    · rw [Function.update_of_ne heq, ih]
      by_cases hlt : level < height
      · rw [if_pos hlt, if_pos (by omega)]
      · rw [if_neg hlt, if_neg (by omega)]

theorem randomHeight_pos (promote : Nat → Bool) : 0 < randomHeight promote := by
  have hle : ∀ fuel height, height ≤ randomHeightLoop promote fuel height := by
    intro fuel
    induction fuel with
    | zero => exact fun height => Nat.le_refl _
    | succ fuel ih =>
      intro height
      rw [randomHeightLoop]
      split
      · have := ih (height + 1)
        omega
      · exact Nat.le_refl _
  exact hle MAX_LEVEL 1

/-- The nodes of a level after an insertion. -/
def insertChain (s : SkipList) (chain : Nat → List Nat) (entry : InternalRecord) (height level : Nat) :
    List Nat :=
  if level < height then
    ((chain level).takeWhile fun a => internalBefore (s.record a) entry) ++
      (s.size + 1) :: (chain level).dropWhile fun a => internalBefore (s.record a) entry
  else chain level

theorem mem_insertChain {entry : InternalRecord} {height level a : Nat} :
    a ∈ insertChain s chain entry height level ↔ a ∈ chain level ∨ (level < height ∧ a = s.size + 1) := by
  unfold insertChain
  split
  · next hlt =>
    rw [List.mem_append, List.mem_cons]
    conv_rhs => rw [← List.takeWhile_append_dropWhile (p := fun a => internalBefore (s.record a) entry)
      (l := chain level), List.mem_append]
    simp only [hlt, true_and]
    tauto
  · next hlt => simp [hlt]

theorem not_of_mem_dropWhile {α : Type} {p : α → Bool} {l : List α}
    (hmono : l.Pairwise fun x y => p y = true → p x = true) {x : α} (hx : x ∈ l.dropWhile p) :
    p x = false := by
  induction l with
  | nil => cases hx
  | cons y ys ih =>
    obtain ⟨hy, hys⟩ := List.pairwise_cons.mp hmono
    by_cases hpy : p y = true
    · rw [List.dropWhile_cons, if_pos hpy] at hx
      exact ih hys hx
    · rw [List.dropWhile_cons, if_neg hpy] at hx
      rw [← Bool.not_eq_true]
      intro hpx
      rcases List.mem_cons.mp hx with rfl | hx
      · exact hpy hpx
      · exact hpy (hy x hx hpx)

theorem downward_before (entry : InternalRecord) : Downward fun r => internalBefore r entry :=
  fun _ _ hab hb => internalBefore_trans hab hb

/-- The records of a level with the new one in its place. -/
theorem Chains.insert_level (h : Chains s chain) {entry : InternalRecord}
    (hsep : ∀ a ∈ chain 0, internalBefore (s.record a) entry = true ∨ internalBefore entry (s.record a) = true)
    {height level : Nat} (hlt : level < height) :
    Driver.insert entry ((chain level).map s.record) =
      .ok ((insertChain s chain entry height level).map (Function.update s.record (s.size + 1) entry)) := by
  have hsub : ∀ level, chain level ⊆ chain 0 := by
    intro level
    induction level with
    | zero => exact fun _ ha => ha
    | succ level ih => exact fun _ ha => ih (h.sub level ha)
  have hold : ∀ l ⊆ chain level, l.map (Function.update s.record (s.size + 1) entry) = l.map s.record := by
    intro l hl
    refine List.map_congr_left fun a ha => Function.update_of_ne ?_ _ _
    have := h.bound level a (hl ha)
    omega
  have hsplit := List.takeWhile_append_dropWhile (p := fun a => internalBefore (s.record a) entry)
    (l := chain level)
  have hmono : (chain level).Pairwise fun a b =>
      internalBefore (s.record b) entry = true → internalBefore (s.record a) entry = true :=
    (List.pairwise_map.mp (h.ordered level)).imp fun hab => downward_before entry _ _ hab
  rw [insertChain, if_pos hlt, List.map_append, List.map_cons, Function.update_self,
    hold _ (List.takeWhile_subset _), hold _ (List.dropWhile_subset _)]
  conv_lhs => rw [← hsplit, List.map_append]
  refine Driver.insert_between ?_ ?_
  · intro x hx
    obtain ⟨a, ha, rfl⟩ := List.mem_map.mp hx
    exact List.mem_takeWhile_imp (p := fun a => internalBefore (s.record a) entry) ha
  · intro x hx
    obtain ⟨a, ha, rfl⟩ := List.mem_map.mp hx
    refine (hsep a (hsub level (List.dropWhile_subset _ ha))).resolve_left ?_
    simp [not_of_mem_dropWhile hmono ha]

/-- The list with a new node linked in behind the stops of its levels. -/
def spliced (s : SkipList) (chain : Nat → List Nat) (entry : InternalRecord) (height : Nat) : SkipList where
  record := Function.update s.record (s.size + 1) entry
  next := linkLoop (stop s chain fun r => internalBefore r entry) (s.size + 1) height s.next
  height := Function.update s.height (s.size + 1) height
  size := s.size + 1
  currentLevel := if height > s.currentLevel then height else s.currentLevel

theorem Chains.insert (h : Chains s chain) {entry : InternalRecord}
    (hsep : ∀ a ∈ chain 0, internalBefore (s.record a) entry = true ∨ internalBefore entry (s.record a) = true)
    (height : Nat) : Chains (spliced s chain entry height) (insertChain s chain entry height) where
  linked level := by
    have hnew : s.size + 1 ∉ 0 :: chain level := by
      intro hmem
      rcases List.mem_cons.mp hmem with h0 | hmem
      · omega
      · have := (h.bound level _ hmem).2
        omega
    show Linked (linkLoop _ _ height s.next level) 0 _
    rw [linkLoop_eq, insertChain]
    split
    · exact (h.linked level).link (h.nodup level) hnew
    · exact h.linked level
  bound level a ha := by
    show 0 < a ∧ a ≤ s.size + 1
    rcases mem_insertChain.mp ha with ha | ⟨-, rfl⟩
    · have := h.bound level a ha
      omega
    · omega
  sub level a ha := by
    rcases mem_insertChain.mp ha with ha | ⟨hlt, rfl⟩
    · exact mem_insertChain.mpr (.inl (h.sub level ha))
    · exact mem_insertChain.mpr (.inr ⟨by omega, rfl⟩)
  ordered level := by
    by_cases hlt : level < height
    · exact Driver.insert_ordered (h.ordered level) (h.insert_level hsep hlt)
    · have hold : (chain level).map (Function.update s.record (s.size + 1) entry) =
          (chain level).map s.record := by
        refine List.map_congr_left fun a ha => Function.update_of_ne ?_ _ _
        have := h.bound level a ha
        omega
      show Ordered ((insertChain s chain entry height level).map (Function.update s.record (s.size + 1) entry))
      rw [insertChain, if_neg hlt, hold]
      exact h.ordered level
  top level hle := by
    have hle' : height ≤ level ∧ s.currentLevel ≤ level := by
      change (if height > s.currentLevel then height else s.currentLevel) ≤ level at hle
      split at hle
      · omega
      · omega
    rw [insertChain, if_neg (by omega)]
    exact h.top level hle'.2
  pos := by
    have := h.pos
    show 0 < if height > s.currentLevel then height else s.currentLevel
    split
    · omega
    · omega

/-- What an insertion does: it refuses a record that a node of level 0 is equivalent to, and splices any other. -/
theorem Chains.insert_cases (hc : Chains s chain) (entry : InternalRecord) (promote : Nat → Bool) :
    (SkipList.insert entry promote s = .error (duplicateEntry entry) ∧
      ∃ a ∈ chain 0, internalBefore entry (s.record a) = false ∧ internalBefore (s.record a) entry = false) ∨
    (SkipList.insert entry promote s = .ok (spliced s chain entry (randomHeight promote)) ∧
      ∀ a ∈ chain 0, internalBefore (s.record a) entry = true ∨ internalBefore entry (s.record a) = true) := by
  have hsearch := hc.search (downward_before entry)
  have hnext : s.next 0 (stop s chain (fun r => internalBefore r entry) 0) =
      ((chain 0).dropWhile fun a => internalBefore (s.record a) entry).head? := next_lastOf (hc.linked 0)
  have hmono : (chain 0).Pairwise fun a b =>
      internalBefore (s.record b) entry = true → internalBefore (s.record a) entry = true :=
    (List.pairwise_map.mp (hc.ordered 0)).imp fun hab => downward_before entry _ _ hab
  have hupdate : (fun level => ((List.range s.currentLevel).map
      (stop s chain fun r => internalBefore r entry)).getD level 0) =
      stop s chain fun r => internalBefore r entry := funext hc.update_eq
  by_cases hdup : ∃ a ∈ chain 0, internalBefore entry (s.record a) = false ∧
      internalBefore (s.record a) entry = false
  · -- the first node that is not before the entry is the duplicate
    left
    refine ⟨?_, hdup⟩
    obtain ⟨a, ha, hea, hae⟩ := hdup
    have hmem : a ∈ (chain 0).dropWhile fun a => internalBefore (s.record a) entry := by
      rw [← List.takeWhile_append_dropWhile (p := fun a => internalBefore (s.record a) entry)
        (l := chain 0)] at ha
      refine (List.mem_append.mp ha).resolve_left fun htake => ?_
      have := List.mem_takeWhile_imp (p := fun a => internalBefore (s.record a) entry) htake
      rw [hae] at this
      cases this
    obtain ⟨x, xs, hx⟩ : ∃ x xs, ((chain 0).dropWhile fun a => internalBefore (s.record a) entry) = x :: xs :=
      List.exists_cons_of_ne_nil (List.ne_nil_of_mem hmem)
    have hxe : internalBefore (s.record x) entry = false :=
      not_of_mem_dropWhile hmono (by rw [hx]; exact List.mem_cons_self)
    have hex : internalBefore entry (s.record x) = false := by
      -- the duplicate is the node itself or comes behind it
      rw [hx] at hmem
      rcases List.mem_cons.mp hmem with rfl | hmem
      · exact hea
      · have hord : (x :: xs).Pairwise fun a b => internalBefore (s.record a) (s.record b) = true := by
          rw [← hx]
          exact (List.pairwise_map.mp (hc.ordered 0)).sublist (List.dropWhile_sublist _)
        have hxa := (List.pairwise_cons.mp hord).1 a hmem
        rw [← Bool.not_eq_true]
        intro hex
        rw [internalBefore_trans hex hxa] at hea
        cases hea
    unfold SkipList.insert
    simp only [hsearch, hnext, hx, List.head?_cons, hxe, hex, Bool.not_false, Bool.and_self, if_true]
  · right
    have hsep : ∀ a ∈ chain 0, internalBefore (s.record a) entry = true ∨
        internalBefore entry (s.record a) = true := by
      intro a ha
      by_contra hno
      obtain ⟨h1, h2⟩ := not_or.mp hno
      exact hdup ⟨a, ha, by simpa using h2, by simpa using h1⟩
    refine ⟨?_, hsep⟩
    unfold SkipList.insert spliced
    simp only [hsearch, hnext, hupdate]
    cases hx : ((chain 0).dropWhile fun a => internalBefore (s.record a) entry).head? with
    | none => simp
    | some x =>
      have hmem : x ∈ (chain 0).dropWhile fun a => internalBefore (s.record a) entry :=
        List.mem_of_head? hx
      have hxe := not_of_mem_dropWhile hmono hmem
      have hex := (hsep x (List.dropWhile_subset _ hmem)).resolve_left (by simp [hxe])
      simp [hex]

/-! ## The records -/

/-- The list holds the records `l`. -/
def Holds (s : SkipList) (l : List InternalRecord) : Prop :=
  ∃ chain, Chains s chain ∧ (chain 0).map s.record = l

theorem Holds.ordered {l : List InternalRecord} (h : s.Holds l) : Ordered l := by
  obtain ⟨chain, hc, rfl⟩ := h
  exact hc.ordered 0

theorem holds_init : init.Holds [] := ⟨_, chains_init, rfl⟩

theorem Holds.dumpInorder {l : List InternalRecord} (h : s.Holds l) : s.dumpInorder = l := by
  obtain ⟨chain, hc, rfl⟩ := h
  rw [SkipList.dumpInorder, follow_eq (hc.linked 0) (Nat.lt_succ_of_le (hc.length_le 0))]

theorem Holds.findLatestByKey {l : List InternalRecord} (h : s.Holds l) (key : ArenaEntry) :
    s.findLatestByKey key = Driver.findLatestByKey key l := by
  obtain ⟨chain, hc, rfl⟩ := h
  have hdown : Downward fun r => r.key.lt key := by
    intro a b hab hb
    have hle : a.key ≤ b.key := by
      rcases internalBefore_iff.mp hab with h | ⟨h, -⟩
      · exact h.le
      · exact h.le
    exact (ArenaEntry.lt_iff _ _).mpr (hle.trans_lt ((ArenaEntry.lt_iff _ _).mp hb))
  have hfind := (searchable_of_ordered key (hc.ordered 0)).find?_eq
  rw [SkipList.findLatestByKey, hc.search hdown, stop, next_lastOf (hc.linked 0), Driver.findLatestByKey,
    List.find?_map]
  show _ = (List.find? (fun a => (s.record a).key == key) (chain 0)).map s.record
  rw [hfind]
  cases ((chain 0).dropWhile fun a => (s.record a).key.lt key).head? with
  | none => rfl
  | some a =>
    by_cases hkey : (s.record a).key = key
    · simp [Option.filter, hkey]
    · simp [Option.filter, hkey]

/-- An insertion does what the ordered list does. -/
theorem Holds.insert {l : List InternalRecord} (h : s.Holds l) (entry : InternalRecord)
    (promote : Nat → Bool) :
    SameOutcome Holds (SkipList.insert entry promote s) (Driver.insert entry l) := by
  obtain ⟨chain, hc, rfl⟩ := h
  rcases hc.insert_cases entry promote with ⟨hins, a, ha, hea, hae⟩ | ⟨hins, hsep⟩
  · rw [hins, Driver.insert_same (hc.ordered 0) (List.mem_map_of_mem ha) hea hae]
    rfl
  · rw [hins, hc.insert_level hsep (randomHeight_pos promote)]
    exact ⟨_, hc.insert hsep (randomHeight promote), rfl⟩

end

end SkipList

end Kvdb
