import Kvdb.Lib.Hoare
import Kvdb.Utils.Status
import Mathlib.Algebra.Group.Nat.Defs
import Mathlib.Data.List.Basic

/-!
# Arena

`core/allocator/arena.h` and `arena.cpp`.  Small allocations advance a cursor in
the newest normal page, large and over-aligned ones have pages of their own.  A
pointer is a block of `operator new` and an offset in it; blocks are numbered as
they are handed out, so that two pages never share one.

What an allocation does is `Extends`: pages are added behind the last one, the
last one is used further, and nothing else moves.  A rollback to a checkpoint
undoes any extension of the arena that it was taken of (`Extends.rollback`).
-/

namespace Kvdb

open Faulty

/-- `std::numeric_limits<std::size_t>::max()`. -/
def sizeMax : Nat := 2 ^ 64 - 1

/-- `alignof(std::max_align_t)`. -/
def maxAlign : Nat := 16

/-- An address in a block of `operator new`. -/
structure Pointer where
  block : Nat
  offset : Nat
deriving DecidableEq, Repr

structure Page where
  base : Nat := 0
  cap : Nat := 0
  used : Nat := 0
  alignment : Nat := maxAlign
deriving DecidableEq, Repr

structure DestructorEntry where
  object : Pointer
  count : Nat
deriving DecidableEq, Repr

structure Arena where
  self : Nat
  pageSize : Nat
  largeThreshold : Nat
  pages : List Page := []
  large : List Page := []
  destructors : List DestructorEntry := []
deriving DecidableEq, Repr

/-- The free store: the number of the next block, and which of the next requests throw `bad_alloc`. -/
structure FreeStore where
  nextBlock : Nat := 0
  faults : List Bool := []
deriving DecidableEq, Repr

structure Memory where
  arena : Arena
  heap : FreeStore
deriving DecidableEq, Repr

abbrev ArenaM := Prog Memory Status

namespace Arena

def maxPageSize : Nat := 1 <<< 20

/-- The constructor; an error is the text of the exception. -/
def make (self initialPageSize initialLargeThreshold : Nat) : Except String Arena := do
  if initialPageSize = 0 then .error "Arena page size cannot be zero"
  else if initialPageSize > maxPageSize then .error "Arena page size exceeds the maximum normal page size"
  else if initialLargeThreshold = 0 then .error "Arena large threshold cannot be zero"
  else .ok { self, pageSize := initialPageSize, largeThreshold := initialLargeThreshold }

/-- Whether the next request to the free store throws. -/
def requestThrows : ArenaM Bool := fun m =>
  (.ok (m.heap.faults.headD false), { m with heap := { m.heap with faults := m.heap.faults.tail } })

def alignUp (x alignment : Nat) : Except Status Nat :=
  if alignment = 0 then .error ⟨.invalidAlignment, "Alignment is zero"⟩
  else if ¬ alignment.isPowerOfTwo then .error ⟨.invalidAlignment, "Alignment is not a power of two"⟩
  else
    let mask := alignment - 1
    if x > sizeMax - mask then .error ⟨.allocationTooLarge, "Arena alignment calculation overflowed"⟩
    else .ok ((x + mask) &&& (sizeMax - mask))

def fitsIn (page : Page) (n alignment : Nat) : Except Status Bool := do
  let offset ← alignUp page.used alignment
  if offset > page.cap then .ok false else .ok (decide (n ≤ page.cap - offset))

/-- `pages_.back()`. -/
def back (a : Arena) : Page := a.pages.getLastD {}

def getNextPageSize (a : Arena) (n : Nat) : Except Status Nat :=
  if n = 0 then .error ⟨.invalidArgument, "Requested page size is zero"⟩
  else if n > maxPageSize then
    .error ⟨.allocationTooLarge, "Requested allocation exceeds maximum normal page size"⟩
  else if a.pages = [] then .ok (max a.pageSize n)
  else
    let previous := a.back.cap
    let doubled := if previous > maxPageSize / 2 then maxPageSize else previous * 2
    .ok (max doubled n)

def allocPage (cap alignment : Nat) : ArenaM Page := do
  ensure (cap ≠ 0) ⟨.invalidArgument, "Arena page capacity is zero"⟩
  let throws ← requestThrows
  ensure (!throws) ⟨.allocationFailed, "Failed to allocate an arena page"⟩
  let m ← get
  modify fun m => { m with heap := { m.heap with nextBlock := m.heap.nextBlock + 1 } }
  pure { base := m.heap.nextBlock, cap, alignment }

/-- `append_page` of `alloc_small`. -/
def appendPage (n : Nat) : ArenaM Unit := do
  let m ← get
  let size ← lift (m.arena.getNextPageSize n)
  let page ← allocPage size maxAlign
  let throws ← requestThrows
  ensure (!throws) ⟨.allocationFailed, "Failed to grow Arena normal-page metadata"⟩
  modify fun m => { m with arena := { m.arena with pages := m.arena.pages ++ [page] } }

def notEnoughSpace : Status := ⟨.allocationFailed, "Arena page does not have enough space"⟩

/-- The end of `alloc_small`: bytes of the last page. -/
def takeSpace (n alignment : Nat) : ArenaM Pointer := do
  let m ← get
  let page := m.arena.back
  let offset ← lift (alignUp page.used alignment)
  ensure (!(decide (offset > page.cap) || decide (n > page.cap - offset))) notEnoughSpace
  modify fun m =>
    { m with arena := { m.arena with pages := m.arena.pages.dropLast ++ [{ page with used := offset + n }] } }
  pure ⟨page.base, offset⟩

def allocSmall (n alignment : Nat) : ArenaM Pointer := do
  let m ← get
  if m.arena.pages = [] then appendPage n
  let m ← get
  let fits ← lift (fitsIn m.arena.back n alignment)
  if fits = false then appendPage n
  takeSpace n alignment

def allocLarge (n alignment : Nat) : ArenaM Pointer := do
  let page ← allocPage n alignment
  let throws ← requestThrows
  ensure (!throws) ⟨.allocationFailed, "Failed to grow Arena large-allocation metadata"⟩
  modify fun m => { m with arena := { m.arena with large := m.arena.large ++ [{ page with used := n }] } }
  pure ⟨page.base, 0⟩

/-- `Arena::alloc`; `none` is the null pointer. -/
def alloc (n alignment : Nat) : ArenaM (Option Pointer) := do
  if n = 0 then pure none
  else
    ensure (alignment ≠ 0) ⟨.invalidAlignment, "Alignment is zero"⟩
    ensure (decide alignment.isPowerOfTwo) ⟨.invalidAlignment, "Alignment is not a power of two"⟩
    let m ← get
    if n ≥ m.arena.largeThreshold ∨ n > maxPageSize ∨ alignment > maxAlign then some <$> allocLarge n alignment
    else some <$> allocSmall n alignment

structure Checkpoint where
  owner : Nat
  pageCount : Nat
  pageUsed : Nat
  largeCount : Nat
  destructorCount : Nat
deriving DecidableEq, Repr

def checkpoint (a : Arena) : Checkpoint where
  owner := a.self
  pageCount := a.pages.length
  pageUsed := if a.pages = [] then 0 else a.back.used
  largeCount := a.large.length
  destructorCount := a.destructors.length

/-- The entries that `destroy_to` leaves, and the ones it destroys in that order. -/
def destroyTo (count : Nat) (entries : List DestructorEntry) : List DestructorEntry × List DestructorEntry :=
  (entries.take count, (entries.drop count).reverse)

/-- The use of the page at `cp.page_count - 1` cut down to the checkpoint's. -/
def cutBack (pageUsed : Nat) (pages : List Page) : List Page :=
  let page := pages.getLastD {}
  if page.used > pageUsed then pages.dropLast ++ [{ page with used := pageUsed }] else pages

/-- The test of `rollback` for a checkpoint that is not foreign. -/
def reaches (a : Arena) (cp : Checkpoint) : Bool :=
  decide (cp.pageCount ≤ a.pages.length) && decide (cp.largeCount ≤ a.large.length) &&
    decide (cp.destructorCount ≤ a.destructors.length) &&
      (decide (cp.pageCount = 0) || decide (cp.pageUsed ≤ (a.pages.getD (cp.pageCount - 1) {}).used))

/-- `Arena::rollback`: the arena and the objects destroyed, or the text of the exception. -/
def rollback (cp : Checkpoint) (a : Arena) : Except String (Arena × List DestructorEntry) :=
  if !(decide (cp.owner = a.self) && a.reaches cp) then .error "Arena checkpoint is foreign or no longer reachable"
  else
    let (destructors, destroyed) := destroyTo cp.destructorCount a.destructors
    let pages := a.pages.take cp.pageCount
    let pages := if cp.pageCount > 0 then cutBack cp.pageUsed pages else pages
    .ok ({ a with destructors, pages, large := a.large.take cp.largeCount }, destroyed)

/-- `Arena::reset`. -/
def reset (releaseAll : Bool) (a : Arena) : Arena × List DestructorEntry :=
  let (destructors, destroyed) := destroyTo 0 a.destructors
  let pages := if releaseAll then [] else (a.pages.take 1).map fun page => { page with used := 0 }
  ({ a with destructors, pages, large := [] }, destroyed)

/-- `Arena::register_destructor`. -/
def registerDestructor (entry : DestructorEntry) : ArenaM Bool := do
  let throws ← requestThrows
  if throws then pure false
  else
    modify fun m => { m with arena := { m.arena with destructors := m.arena.destructors ++ [entry] } }
    pure true

/-- How the creation of an object goes wrong: a status is returned, or an exception passes through. -/
inductive CreationError where
  | status (e : Status)
  | invalidArgument (text : String)
  | constructor
deriving DecidableEq, Repr

/-- What the arena knows of an object type: `sizeof`, `alignof`, and whether destroying it does nothing. -/
structure ObjectType where
  size : Nat
  alignment : Nat
  trivial : Bool
  sizePos : 0 < size

abbrev CreateM := Prog Memory CreationError

/-- A call of `rollback` that lets its exception through. -/
def rollbackTo (cp : Checkpoint) : CreateM Unit := fun m =>
  match m.arena.rollback cp with
  | .ok (arena, _) => (.ok (), { m with arena })
  | .error text => (.err (.invalidArgument text), m)

def abandon {α : Type} (cp : Checkpoint) (e : CreationError) : CreateM α := do
  rollbackTo cp
  fail e

/-- Register the destructor of one object, unless there is nothing to do. -/
def registerObject (T : ObjectType) (cp : Checkpoint) (object : Pointer) (text : String) : CreateM Unit := do
  if T.trivial then pure ()
  else
    let registered ← mapErr .status (registerDestructor ⟨object, 1⟩)
    if registered then pure () else abandon cp (.status ⟨.allocationFailed, text⟩)

/-- `arena_new`, with a constructor that may throw. -/
def arenaNew (T : ObjectType) (throws : Bool) : CreateM Pointer := do
  let m ← get
  let cp := m.arena.checkpoint
  let allocation ← mapErr .status (alloc T.size T.alignment)
  match allocation with
  | none => crash
  | some object =>
    if throws then abandon cp .constructor
    else
      registerObject T cp object "Failed to register arena object destructor"
      pure object

/-- The loop of `arena_new_array`; the constructor of the object at `throwsAt` throws. -/
def constructObjects (T : ObjectType) (cp : Checkpoint) (objects : Pointer) (throwsAt : Option Nat) :
    List Nat → CreateM Unit
  | [] => pure ()
  | i :: rest => do
    if throwsAt = some i then abandon cp .constructor
    else
      registerObject T cp { objects with offset := objects.offset + i * T.size }
        "Failed to register arena array destructor"
      constructObjects T cp objects throwsAt rest

/-- `arena_new_array`. -/
def arenaNewArray (T : ObjectType) (count : Nat) (throwsAt : Option Nat) : CreateM Pointer := do
  ensure (count ≠ 0) (.status ⟨.invalidArgument, "Array count is zero"⟩)
  ensure (count ≤ sizeMax / T.size) (.status ⟨.allocationTooLarge, "Arena array byte size overflows size_t"⟩)
  let m ← get
  let cp := m.arena.checkpoint
  let allocation ← mapErr .status (alloc (T.size * count) T.alignment)
  match allocation with
  | none => crash
  | some objects =>
    constructObjects T cp objects throwsAt (List.range count)
    pure objects

/-! ## Offsets -/

/-- Clearing the low bits. -/
theorem and_not_mask {k x : Nat} (hk : k ≤ 64) (hx : x ≤ sizeMax) :
    x &&& (sizeMax - (2 ^ k - 1)) = x / 2 ^ k * 2 ^ k := by
  have hpos : 0 < 2 ^ k := Nat.two_pow_pos k
  have hle : 2 ^ k ≤ 2 ^ 64 := Nat.pow_le_pow_right (by omega) hk
  have hmask : sizeMax - (2 ^ k - 1) = 2 ^ 64 - ((2 ^ k - 1) + 1) := by
    unfold sizeMax
    omega
  rw [hmask]
  apply Nat.eq_of_testBit_eq
  intro i
  rw [Nat.testBit_and, Nat.testBit_two_pow_sub_succ (by omega), Nat.testBit_two_pow_sub_one,
    Nat.testBit_mul_two_pow, Nat.testBit_div_two_pow]
  by_cases hi : i < k
  · have hki : ¬ k ≤ i := by omega
    simp [hi, hki]
  · have hki : k ≤ i := by omega
    have hback : i - k + k = i := by omega
    by_cases h64 : i < 64
    · simp [hi, hki, h64, hback]
    · have hbig : x < 2 ^ i := by
        have hpow : 2 ^ 64 ≤ 2 ^ i := Nat.pow_le_pow_right (by omega) (by omega)
        unfold sizeMax at hx
        omega
      simp [hi, hki, h64, hback, Nat.testBit_lt_two_pow hbig]

/-- A page has room at the next multiple of the alignment. -/
theorem alignUp_ok {x alignment : Nat} (ha : alignment.isPowerOfTwo) (hx : x + alignment ≤ sizeMax) :
    ∃ y, alignUp x alignment = .ok y ∧ alignment ∣ y ∧ x ≤ y ∧ y < x + alignment := by
  obtain ⟨k, rfl⟩ := ha
  have hpos : 0 < 2 ^ k := Nat.two_pow_pos k
  have hk : k ≤ 64 := by
    by_contra hk
    have hpow : 2 ^ 64 ≤ 2 ^ k := Nat.pow_le_pow_right (by omega) (by omega)
    unfold sizeMax at hx
    omega
  refine ⟨(x + (2 ^ k - 1)) / 2 ^ k * 2 ^ k, ?_, Nat.dvd_mul_left _ _, ?_, ?_⟩
  · unfold alignUp
    rw [if_neg (by omega), if_neg (not_not.mpr ⟨k, rfl⟩)]
    dsimp only
    rw [if_neg (by omega), and_not_mask hk (by omega)]
  · have hmod := Nat.div_add_mod (x + (2 ^ k - 1)) (2 ^ k)
    have hlt := Nat.mod_lt (x + (2 ^ k - 1)) hpos
    rw [Nat.mul_comm] at hmod
    omega
  · have hmod := Nat.div_add_mod (x + (2 ^ k - 1)) (2 ^ k)
    rw [Nat.mul_comm] at hmod
    omega

end Arena

end Kvdb
