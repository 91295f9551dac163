import Kvdb.DataStructures.SkipList

/-!
# The drivers of a memtable are interchangeable

`Driver` (`core/engine/driver.h`) and its four implementations, called in any
order.  Each of them refines the ordered list of `Driver.insert` and
`Driver.findLatestByKey`, so all four give the same replies and the same dump
after every call (`drivers_interchangeable`), whatever heights and priorities
were drawn.
-/

namespace Kvdb

open Recency SearchTree

/-- What the random generators give for one new node. -/
structure Draw where
  priority : UInt64
  promote : Nat → Bool

/-- The calls of the `Driver` interface. -/
structure Backend where
  State : Type
  init : State
  insert : InternalRecord → Draw → State → Except Status State
  findLatestByKey : ArenaEntry → State → Option InternalRecord × State
  findLatestByKeyConst : ArenaEntry → State → Option InternalRecord
  dumpInorder : State → List InternalRecord

def rbTree : Backend where
  State := BinTree RBTree.Node
  init := .nil
  insert entry _ t := RBTree.insert entry t
  findLatestByKey key t := (RBTree.findLatestByKey key t, t)
  findLatestByKeyConst := RBTree.findLatestByKey
  dumpInorder := RBTree.dumpInorder

def skipList : Backend where
  State := SkipList
  init := .init
  insert entry draw s := s.insert entry draw.promote
  findLatestByKey key s := (s.findLatestByKey key, s)
  findLatestByKeyConst key s := s.findLatestByKey key
  dumpInorder := SkipList.dumpInorder

def treap : Backend where
  State := BinTree Treap.Node
  init := .nil
  insert entry draw t := Treap.insert entry draw.priority t
  findLatestByKey key t := (Treap.findLatestByKey key t, t)
  findLatestByKeyConst := Treap.findLatestByKey
  dumpInorder := Treap.dumpInorder

def splayTree : Backend where
  State := BinTree InternalRecord
  init := .nil
  insert entry _ t := SplayTree.insert entry t
  findLatestByKey := SplayTree.findLatestByKey
  findLatestByKeyConst := SplayTree.findLatestByKeyConst
  dumpInorder := SplayTree.dumpInorder

/-! ## Calls -/

inductive DriverCall where
  | insert (entry : InternalRecord) (draw : Draw)
  | findLatestByKey (key : ArenaEntry)
  | findLatestByKeyConst (key : ArenaEntry)

inductive DriverReply where
  | inserted
  | refused (status : Status)
  | found (record : Option InternalRecord)
deriving DecidableEq

def Backend.step (b : Backend) (s : b.State) : DriverCall → DriverReply × b.State
  | .insert entry draw =>
    match b.insert entry draw s with
    | .ok s' => (.inserted, s')
    | .error e => (.refused e, s)
  | .findLatestByKey key => (.found (b.findLatestByKey key s).1, (b.findLatestByKey key s).2)
  | .findLatestByKeyConst key => (.found (b.findLatestByKeyConst key s), s)

/-- The replies to a sequence of calls, each with what `dump_inorder` gives right after it. -/
def Backend.run (b : Backend) : b.State → List DriverCall → List (DriverReply × List InternalRecord)
  | _, [] => []
  | s, c :: calls => ((b.step s c).1, b.dumpInorder (b.step s c).2) :: b.run (b.step s c).2 calls

/-- The replies a driver owes when it has accepted the records `acc`, newest last: a record is refused
exactly when one with its key and sequence number was accepted, a lookup gives the version of the
highest sequence number, and the dump has the accepted records, each once, in internal order. -/
inductive Served : List InternalRecord → List DriverCall → List (DriverReply × List InternalRecord) → Prop
    where
  | done {acc : List InternalRecord} : Served acc [] []
  | inserted {acc dump : List InternalRecord} {entry : InternalRecord} {draw : Draw} {calls : List DriverCall}
      {replies : List (DriverReply × List InternalRecord)}
      (hnew : ∀ x ∈ acc, ¬ (x.key = entry.key ∧ x.seqNum = entry.seqNum))
      (hord : Ordered dump) (hperm : dump.Perm (acc ++ [entry]))
      (hrest : Served (acc ++ [entry]) calls replies) :
      Served acc (.insert entry draw :: calls) ((.inserted, dump) :: replies)
  | refused {acc dump : List InternalRecord} {entry : InternalRecord} {draw : Draw} {status : Status}
      {calls : List DriverCall} {replies : List (DriverReply × List InternalRecord)}
      (hold : ∃ x ∈ acc, x.key = entry.key ∧ x.seqNum = entry.seqNum) (hstatus : status.code = .duplicate)
      (hord : Ordered dump) (hperm : dump.Perm acc) (hrest : Served acc calls replies) :
      Served acc (.insert entry draw :: calls) ((.refused status, dump) :: replies)
  | found {acc dump : List InternalRecord} {key : ArenaEntry} {call : DriverCall}
      {record : Option InternalRecord} {calls : List DriverCall}
      {replies : List (DriverReply × List InternalRecord)}
      (hcall : call = .findLatestByKey key ∨ call = .findLatestByKeyConst key)
      (hfind : FindsNewest (recs acc) key record) (hord : Ordered dump) (hperm : dump.Perm acc)
      (hrest : Served acc calls replies) : Served acc (call :: calls) ((.found record, dump) :: replies)

/-! ## Refinement of the ordered list -/

/-- The ordered list itself. -/
def orderedList : Backend where
  State := List InternalRecord
  init := []
  insert entry _ l := Driver.insert entry l
  findLatestByKey key l := (Driver.findLatestByKey key l, l)
  findLatestByKeyConst := Driver.findLatestByKey
  dumpInorder l := l

/-- Related states answer alike and stay related. -/
structure Refines (b : Backend) (R : b.State → List InternalRecord → Prop) : Prop where
  init : R b.init []
  insert : ∀ {s l}, R s l → ∀ entry draw, SameOutcome R (b.insert entry draw s) (Driver.insert entry l)
  find : ∀ {s l}, R s l → ∀ key,
    (b.findLatestByKey key s).1 = Driver.findLatestByKey key l ∧ R (b.findLatestByKey key s).2 l
  findConst : ∀ {s l}, R s l → ∀ key, b.findLatestByKeyConst key s = Driver.findLatestByKey key l
  dump : ∀ {s l}, R s l → b.dumpInorder s = l

section

variable {b : Backend} {R : b.State → List InternalRecord → Prop}

theorem Refines.step (h : Refines b R) {s : b.State} {l : List InternalRecord} (hs : R s l) (c : DriverCall) :
    (b.step s c).1 = (orderedList.step l c).1 ∧ R (b.step s c).2 (orderedList.step l c).2 := by
  cases c with
  | insert entry draw =>
    have hins := h.insert hs entry draw
    simp only [Backend.step, orderedList]
    cases hb : b.insert entry draw s with
    | ok s' =>
      rw [hb] at hins
      cases hl : Driver.insert entry l with
      | ok l' =>
        rw [hl] at hins
        exact ⟨rfl, hins⟩
      | error e =>
        rw [hl] at hins
        exact hins.elim
    | error e =>
      rw [hb] at hins
      cases hl : Driver.insert entry l with
      | ok l' =>
        rw [hl] at hins
        exact hins.elim
      | error e' =>
        rw [hl] at hins
        exact ⟨congrArg DriverReply.refused hins, hs⟩
  | findLatestByKey key =>
    obtain ⟨hfind, hrel⟩ := h.find hs key
    exact ⟨congrArg DriverReply.found hfind, hrel⟩
  | findLatestByKeyConst key => exact ⟨congrArg DriverReply.found (h.findConst hs key), hs⟩

theorem Refines.run (h : Refines b R) {s : b.State} {l : List InternalRecord} (hs : R s l)
    (calls : List DriverCall) : b.run s calls = orderedList.run l calls := by
  induction calls generalizing s l with
  | nil => rfl
  | cons c calls ih =>
    obtain ⟨hreply, hrel⟩ := h.step hs c
    have hdump := h.dump hrel
    show ((b.step s c).1, b.dumpInorder (b.step s c).2) :: b.run (b.step s c).2 calls =
      ((orderedList.step l c).1, (orderedList.step l c).2) :: orderedList.run (orderedList.step l c).2 calls
    rw [hreply, hdump, ih hrel]
    rfl

/-- A tree refines the list when its insertion does on the records. -/
theorem sameOutcome_of_records {σ : Type} {records : σ → List InternalRecord} {entry : InternalRecord}
    {x : Except Status σ} {l : List InternalRecord} (hl : Ordered l)
    (h : x.map records = Driver.insert entry l) :
    SameOutcome (fun s l => records s = l ∧ Ordered l) x (Driver.insert entry l) := by
  cases x with
  | ok s =>
    rw [← h]
    exact ⟨rfl, Driver.insert_ordered hl h.symm⟩
  | error e =>
    rw [← h]
    exact rfl

end

theorem rbTree_refines : Refines rbTree fun t l => RBTree.records t = l ∧ Ordered l where
  init := ⟨rfl, List.Pairwise.nil⟩
  insert := by
    rintro t l ⟨rfl, hl⟩ entry draw
    exact sameOutcome_of_records hl (RBTree.insert_records entry hl)
  find := by
    rintro t l ⟨rfl, hl⟩ key
    exact ⟨findNode_eq key hl, rfl, hl⟩
  findConst := by
    rintro t l ⟨rfl, hl⟩ key
    exact findNode_eq key hl
  dump := by
    rintro t l ⟨rfl, hl⟩
    exact dumpNodes_eq t

theorem treap_refines : Refines treap fun t l => Treap.records t = l ∧ Ordered l where
  init := ⟨rfl, List.Pairwise.nil⟩
  insert := by
    rintro t l ⟨rfl, hl⟩ entry draw
    exact sameOutcome_of_records hl (Treap.insert_records entry draw.priority hl)
  find := by
    rintro t l ⟨rfl, hl⟩ key
    exact ⟨findNode_eq key hl, rfl, hl⟩
  findConst := by
    rintro t l ⟨rfl, hl⟩ key
    exact findNode_eq key hl
  dump := by
    rintro t l ⟨rfl, hl⟩
    exact dumpNodes_eq t

theorem splayTree_refines : Refines splayTree fun t l => SplayTree.records t = l ∧ Ordered l where
  init := ⟨rfl, List.Pairwise.nil⟩
  insert := by
    rintro t l ⟨rfl, hl⟩ entry draw
    exact sameOutcome_of_records hl (SplayTree.insert_records entry hl)
  find := by
    rintro t l ⟨rfl, hl⟩ key
    obtain ⟨hfind, hrecords⟩ := SplayTree.find_records key hl
    exact ⟨hfind, hrecords, hl⟩
  findConst := by
    rintro t l ⟨rfl, hl⟩ key
    exact findNode_eq key hl
  dump := by
    rintro t l ⟨rfl, hl⟩
    exact dumpNodes_eq t

theorem skipList_refines : Refines skipList SkipList.Holds where
  init := SkipList.holds_init
  insert := by
    intro s l hs entry draw
    exact hs.insert entry draw.promote
  find hs key := ⟨hs.findLatestByKey key, hs⟩
  findConst hs key := hs.findLatestByKey key
  dump hs := hs.dumpInorder

/-! ## What the list serves -/

theorem findsNewest_perm {l acc : List InternalRecord} (h : l.Perm acc) (key : ArenaEntry) (hl : Ordered l) :
    FindsNewest (recs acc) key (Driver.findLatestByKey key l) := by
  have hset : recs acc = recs l := by
    ext r
    exact h.mem_iff.symm
  rw [hset]
  exact Driver.findLatest_finds key hl

theorem Driver.insert_accepted {r : InternalRecord} {l l' : List InternalRecord} (hl : Ordered l)
    (h : Driver.insert r l = .ok l') : ∀ x ∈ l, ¬ (x.key = r.key ∧ x.seqNum = r.seqNum) := by
  rintro x hx ⟨hkey, hseq⟩
  have hneither : ∀ a b : InternalRecord, a.key = b.key → a.seqNum = b.seqNum →
      internalBefore a b = false := by
    intro a b hk hs
    exact internalBefore_eq_false_iff.mpr (.inr ⟨hk, by rw [hs]⟩)
  rw [Driver.insert_same hl hx (hneither r x hkey.symm hseq.symm) (hneither x r hkey hseq)] at h
  cases h

theorem orderedList_served {l acc : List InternalRecord} (hl : Ordered l) (hperm : l.Perm acc)
    (calls : List DriverCall) : Served acc calls (orderedList.run l calls) := by
  induction calls generalizing l acc with
  | nil => exact .done
  | cons c calls ih =>
    show Served acc (c :: calls) (((orderedList.step l c).1, (orderedList.step l c).2) ::
      orderedList.run (orderedList.step l c).2 calls)
    cases c with
    | insert entry draw =>
      cases hins : Driver.insert entry l with
      | ok l' =>
        have hstep : orderedList.step l (.insert entry draw) = (.inserted, l') := by
          simp [Backend.step, orderedList, hins]
        have hord := Driver.insert_ordered hl hins
        have hperm' : l'.Perm (acc ++ [entry]) :=
          ((Driver.insert_perm hins).trans (hperm.cons entry)).trans (List.perm_append_singleton entry acc).symm
        rw [hstep]
        refine .inserted (fun x hx => Driver.insert_accepted hl hins x (hperm.mem_iff.mpr hx)) hord hperm' ?_
        exact ih hord hperm'
      | error e =>
        have hstep : orderedList.step l (.insert entry draw) = (.refused e, l) := by
          simp [Backend.step, orderedList, hins]
        obtain ⟨hcode, x, hx, hsame⟩ := Driver.insert_refused hins
        rw [hstep]
        exact .refused ⟨x, hperm.mem_iff.mp hx, hsame⟩ hcode hl hperm (ih hl hperm)
    | findLatestByKey key =>
      exact .found (.inl rfl) (findsNewest_perm hperm key hl) hl hperm (ih hl hperm)
    | findLatestByKeyConst key =>
      exact .found (.inr rfl) (findsNewest_perm hperm key hl) hl hperm (ih hl hperm)

/-- Whatever is called in whatever order, with whatever heights and priorities, the four drivers give
the same replies and dumps, and these are the ones that a driver owes. -/
theorem drivers_interchangeable (calls : List DriverCall) :
    ∃ replies, Served [] calls replies ∧ rbTree.run rbTree.init calls = replies ∧
      skipList.run skipList.init calls = replies ∧ treap.run treap.init calls = replies ∧
      splayTree.run splayTree.init calls = replies :=
  ⟨orderedList.run [] calls, orderedList_served List.Pairwise.nil (List.Perm.refl []) calls,
    rbTree_refines.run rbTree_refines.init calls, skipList_refines.run skipList_refines.init calls,
    treap_refines.run treap_refines.init calls, splayTree_refines.run splayTree_refines.init calls⟩

end Kvdb
