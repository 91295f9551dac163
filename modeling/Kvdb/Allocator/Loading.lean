import Kvdb.Allocator.Checkpoints
import Kvdb.Utils.BlockIO

/-!
# Loaders

A loader reads a section at the caller's offset and keeps in the arena what outlives
the file.  It takes a checkpoint when it starts; each of its errors goes back to that
checkpoint and to the offset it was called with (`rollingBack`).

What a loader does up to an error only lets the arena grow (`Grows`), so that the
checkpoint is still reachable and the arena is as it was (`Restores`).  Loaders
nest: one that restores also only grows.

`Yields` follows a load that meets nothing wrong: the arena is sound, the free store
does not throw, and every check holds.
-/

namespace Kvdb

open Faulty Bytes

/-- The arena with its free store, and the caller's offset. -/
structure LoadState where
  memory : Memory
  offset : Nat
deriving DecidableEq

/-- How a loader goes wrong: a status is returned, or the exception of a rollback passes through. -/
inductive LoadError where
  | status (e : Status)
  | invalidArgument (text : String)
deriving DecidableEq

abbrev LoadM := Prog LoadState LoadError

namespace LoadM

variable {α β : Type}

/-- A check, or a reader with a cursor of its own. -/
def check : Except Status α → LoadM α
  | .ok a => pure a
  | .error e => fail (.status e)

def ensure (b : Bool) (e : Status) : LoadM Unit := Faulty.ensure b (.status e)

/-- A reader at the caller's offset. -/
def read (file : ReadableFile) (r : FileReader α) : LoadM α := fun s =>
  match r file s.offset with
  | .ok (a, offset) => (.ok a, { s with offset })
  | .error e => (.err (.status e), s)

def setOffset (offset : Nat) : LoadM Unit := modify fun s => { s with offset }

/-- `Arena::alloc` of `n` bytes. -/
def alloc (n : Nat) : LoadM (Option Pointer) := fun s =>
  match Arena.alloc n 1 s.memory with
  | (.ok pointer, memory) => (.ok pointer, { s with memory })
  | (.err e, memory) => (.err (.status e), { s with memory })
  | (.crash, memory) => (.crash, { s with memory })

/-- A loader that is called with a cursor of its own: the result, and where the cursor ended. -/
def withCursor (cursor : Nat) (m : LoadM α) : LoadM (α × Nat) := fun s =>
  match m { s with offset := cursor } with
  | (.ok a, s') => (.ok (a, s'.offset), { s' with offset := s.offset })
  | (.err e, s') => (.err e, { s' with offset := s.offset })
  | (.crash, s') => (.crash, { s' with offset := s.offset })

/-- A loader around its body: the checkpoint in front, and `fail` for its errors. -/
def rollingBack (body : LoadM α) : LoadM α := fun s =>
  match body s with
  | (.err (.status e), s') =>
    match s'.memory.arena.rollback s.memory.arena.checkpoint with
    | .ok (arena, _) => (.err (.status e), ⟨{ s'.memory with arena }, s.offset⟩)
    | .error text => (.err (.invalidArgument text), s')
  | r => r

end LoadM

/-! ## Allocations only extend -/

namespace Arena

/-- Whatever an allocation does, the arena was extended, and it comes back. -/
def Extending {α : Type} (m : ArenaM α) : Prop :=
  ∀ s, Ends (fun _ s' => Extends s.arena s'.arena) (fun s' => Extends s.arena s'.arena) (fun _ => False) (m s)

section

variable {α β : Type} {m : ArenaM α} {k : α → ArenaM β}

theorem extending_pure (a : α) : Extending (pure a) := fun s => Extends.refl s.arena

theorem Extending.bind (hm : Extending m) (hk : ∀ a, Extending (k a)) : Extending (m >>= k) := fun s =>
  Ends.bind (hm s) fun a s' h =>
    (hk a s').mono (fun _ _ h' => h.trans h') (fun _ h' => h.trans h') fun _ h' => h'

theorem extending_ensure (b : Bool) (e : Status) : Extending (Faulty.ensure b e) := fun s =>
  ends_ensure (fun _ => Extends.refl s.arena) fun _ => Extends.refl s.arena

theorem extending_lift (x : Except Status α) : Extending (lift x) := fun s =>
  ends_lift (fun _ _ => Extends.refl s.arena) fun _ _ => Extends.refl s.arena

theorem extending_get {k : Memory → ArenaM α} (hk : ∀ s, Ends (fun _ s' => Extends s.arena s'.arena)
    (fun s' => Extends s.arena s'.arena) (fun _ => False) (k s s)) : Extending (get >>= k) := fun s =>
  ends_get (hk s)

theorem extending_requestThrows : Extending requestThrows := fun s => Extends.refl s.arena

theorem extending_allocPage (cap alignment : Nat) : Extending (allocPage cap alignment) :=
  (extending_ensure _ _).bind fun _ => extending_requestThrows.bind fun _ => (extending_ensure _ _).bind fun _ =>
    extending_get fun s => Extends.refl s.arena

theorem extending_appendPage (n : Nat) : Extending (appendPage n) := by
  refine extending_get fun s => (extending_lift _).bind (fun size => ?_) s
  refine (extending_allocPage size maxAlign).bind fun page => extending_requestThrows.bind fun throws => ?_
  refine (extending_ensure _ _).bind fun _ s => ?_
  show Extends s.arena { s.arena with pages := s.arena.pages ++ [page] }
  exact ⟨rfl, rfl, rfl, Grown.append _ _, List.prefix_refl _, List.prefix_refl _⟩

/-- At the alignment of a byte nothing is skipped. -/
theorem alignUp_one {x y : Nat} (h : alignUp x 1 = .ok y) : y = x := by
  unfold alignUp at h
  rw [if_neg (by omega), if_neg (not_not.mpr ⟨0, rfl⟩)] at h
  dsimp only at h
  split at h
  · cases h
  next hle =>
  cases h
  have hmask := @and_not_mask 0 x (by omega) (by omega)
  simpa using hmask

theorem extending_takeSpace (n : Nat) : Extending (takeSpace n 1) := by
  refine extending_get fun s => ?_
  refine ends_lift_bind (fun _ _ => Extends.refl s.arena) fun offset hoffset => ?_
  refine ends_guard (fun _ => Extends.refl s.arena) fun _ => ?_
  have hused : offset = s.arena.back.used := alignUp_one hoffset
  show Extends s.arena
    { s.arena with pages := s.arena.pages.dropLast ++ [{ s.arena.back with used := offset + n }] }
  refine ⟨rfl, rfl, rfl, ?_, List.prefix_refl _, List.prefix_refl _⟩
  dsimp only
  rcases List.eq_nil_or_concat' s.arena.pages with hnil | ⟨init, page, hpages⟩
  · exact .inl hnil
  · refine .inr ⟨init, page, offset + n, [], hpages, ?_, ?_⟩
    · rw [back_concat hpages, hpages, List.dropLast_concat]
    · rw [hused, back_concat hpages]
      omega

theorem extending_allocSmall (n : Nat) : Extending (allocSmall n 1) := by
  have hrest : Extending (do
      let m ← get
      let fits ← lift (fitsIn m.arena.back n 1)
      if fits = false then appendPage n
      takeSpace n 1 : ArenaM Pointer) := by
    refine extending_get fun s => (extending_lift _).bind (fun fits => ?_) s
    split
    · exact (extending_appendPage n).bind fun _ => extending_takeSpace n
    · exact extending_takeSpace n
  refine extending_get fun s => ?_
  dsimp only
  split
  · exact (extending_appendPage n).bind (fun _ => hrest) s
  · exact hrest s

theorem extending_allocLarge (n : Nat) : Extending (allocLarge n 1) := by
  refine (extending_allocPage n 1).bind fun page => extending_requestThrows.bind fun throws => ?_
  refine (extending_ensure _ _).bind fun _ s => ?_
  show Extends s.arena { s.arena with large := s.arena.large ++ [{ page with used := n }] }
  exact ⟨rfl, rfl, rfl, Grown.refl _, List.prefix_append _ _, List.prefix_refl _⟩

/-- An allocation of bytes extends any arena, also when it fails. -/
theorem extending_alloc (n : Nat) : Extending (alloc n 1) := by
  unfold alloc
  split
  · exact extending_pure none
  · refine (extending_ensure _ _).bind fun _ => (extending_ensure _ _).bind fun _ => extending_get fun s => ?_
    split
    · exact ((extending_allocLarge n).bind fun p => extending_pure (some p)) s
    · exact ((extending_allocSmall n).bind fun p => extending_pure (some p)) s

end

end Arena

/-! ## What a loader leaves -/

namespace LoadM

open Arena

variable {α β : Type}

/-- The program gives a result or a status, and the arena has at most grown. -/
def Grows (m : LoadM α) : Prop := ∀ s,
  match m s with
  | (.ok _, s') => Extends s.memory.arena s'.memory.arena
  | (.err (.status _), s') => Extends s.memory.arena s'.memory.arena
  | _ => False

/-- The same, and an error leaves the arena and the offset as they were. -/
def Restores (m : LoadM α) : Prop := ∀ s,
  match m s with
  | (.ok _, s') => Extends s.memory.arena s'.memory.arena
  | (.err (.status _), s') => s'.memory.arena = s.memory.arena ∧ s'.offset = s.offset
  | _ => False

section

variable {m : LoadM α} {k : α → LoadM β}

theorem grows_pure (a : α) : Grows (pure a : LoadM α) := fun s => Extends.refl s.memory.arena

theorem Grows.bind (hm : Grows m) (hk : ∀ a, Grows (k a)) : Grows (m >>= k) := by
  intro s
  have h := hm s
  rw [bind_apply]
  match hr : m s, h with
  | (.ok a, s'), h =>
    have h' := hk a s'
    dsimp only
    match hr' : k a s', h' with
    | (.ok _, _), h' => exact h.trans h'
    | (.err (.status _), _), h' => exact h.trans h'
  | (.err (.status _), _), h => exact h

theorem grows_get {k : LoadState → LoadM β} (hk : ∀ s, Grows (k s)) : Grows (get >>= k) := fun s => hk s s

theorem grows_check (x : Except Status α) : Grows (check x) := by
  intro s
  cases x with
  | ok a => exact Extends.refl s.memory.arena
  | error e => exact Extends.refl s.memory.arena

theorem grows_ensure (b : Bool) (e : Status) : Grows (ensure b e) := by
  intro s
  cases b with
  | true => exact Extends.refl s.memory.arena
  | false => exact Extends.refl s.memory.arena

theorem grows_read (file : ReadableFile) (r : FileReader α) : Grows (read file r) := by
  intro s
  unfold read
  cases r file s.offset with
  | ok a => exact Extends.refl s.memory.arena
  | error e => exact Extends.refl s.memory.arena

theorem grows_setOffset (offset : Nat) : Grows (setOffset offset) := fun s => Extends.refl s.memory.arena

theorem grows_alloc (n : Nat) : Grows (alloc n) := by
  intro s
  have h := extending_alloc n s.memory
  unfold alloc
  match hr : Arena.alloc n 1 s.memory, h with
  | (.ok _, _), h => exact h
  | (.err _, _), h => exact h

theorem Grows.withCursor (hm : Grows m) (cursor : Nat) : Grows (withCursor cursor m) := by
  intro s
  have h := hm { s with offset := cursor }
  unfold LoadM.withCursor
  match hr : m { s with offset := cursor }, h with
  | (.ok _, _), h => exact h
  | (.err (.status _), _), h => exact h

theorem Restores.grows (h : Restores m) : Grows m := by
  intro s
  have hs := h s
  match hr : m s, hs with
  | (.ok _, _), hs => exact hs
  | (.err (.status _), s'), hs =>
    show Extends s.memory.arena s'.memory.arena
    rw [hs.1]
    exact Extends.refl _

/-- A loader whose body only lets the arena grow leaves nothing behind when it fails. -/
theorem Grows.restores (h : Grows m) : Restores (rollingBack m) := by
  intro s
  have hs := h s
  unfold rollingBack
  match hr : m s, hs with
  | (.ok _, _), hs => exact hs
  | (.err (.status _), s'), hs =>
    have hroll := Extends.rollback hs
    dsimp only
    rw [hroll]
    exact ⟨rfl, rfl⟩

/-- The result of a loader is that of its body. -/
theorem rollingBack_ok {a : α} {s s' : LoadState} : rollingBack m s = (.ok a, s') ↔ m s = (.ok a, s') := by
  unfold rollingBack
  match m s with
  | (.ok _, _) => exact Iff.rfl
  | (.crash, _) => exact Iff.rfl
  | (.err (.invalidArgument _), _) => exact Iff.rfl
  | (.err (.status e), s₁) =>
    dsimp only
    cases s₁.memory.arena.rollback s.memory.arena.checkpoint with
    | ok r => exact iff_of_false nofun nofun
    | error text => exact iff_of_false nofun nofun

theorem read_ok {file : ReadableFile} {r : FileReader α} {a : α} {s s' : LoadState}
    (h : read file r s = (.ok a, s')) :
    r file s.offset = .ok (a, s'.offset) ∧ s'.memory = s.memory := by
  unfold read at h
  cases hr : r file s.offset with
  | ok p =>
    rw [hr] at h
    cases h
    exact ⟨rfl, rfl⟩
  | error e =>
    rw [hr] at h
    cases h

theorem alloc_offset {n : Nat} {p : Option Pointer} {s s' : LoadState} (h : alloc n s = (.ok p, s')) :
    s'.offset = s.offset := by
  unfold alloc at h
  match hr : Arena.alloc n 1 s.memory, h with
  | (.ok _, _), h =>
    cases h
    rfl

theorem withCursor_ok {cursor : Nat} {a : α × Nat} {s s' : LoadState} (h : withCursor cursor m s = (.ok a, s')) :
    ∃ t, m { s with offset := cursor } = (.ok a.1, t) ∧ a.2 = t.offset ∧ s' = { t with offset := s.offset } := by
  unfold withCursor at h
  match hr : m { s with offset := cursor }, h with
  | (.ok _, t), h =>
    cases h
    exact ⟨t, rfl, rfl, rfl⟩

theorem check_bind_ok {x : Except Status α} {s s' : LoadState} {b : β} (h : (check x >>= k) s = (.ok b, s')) :
    ∃ a, x = .ok a ∧ k a s = (.ok b, s') := by
  cases x with
  | ok a => exact ⟨a, rfl, h⟩
  | error e => cases h

theorem ensure_bind_ok {c : Bool} {e : Status} {k : Unit → LoadM β} {s s' : LoadState} {b : β}
    (h : (ensure c e >>= k) s = (.ok b, s')) : c = true ∧ k () s = (.ok b, s') := ensure_bind_eq_ok h

end

/-! ## Loads that succeed -/

/-- The arena is sound, and the free store does not throw. -/
structure Calm (s : LoadState) : Prop where
  sound : Arena.Sound s.memory
  quiet : Arena.Quiet s.memory

/-- From a calm state at the first offset the program gives the result and ends, calm, at the second one. -/
def Yields (m : LoadM α) (offset : Nat) (a : α) (offset' : Nat) : Prop :=
  ∀ s, Calm s → s.offset = offset → ∃ s', m s = (.ok a, s') ∧ Calm s' ∧ s'.offset = offset'

section

variable {m : LoadM α} {k : α → LoadM β} {a : α} {b : β} {i j l : Nat}

theorem yields_pure (a : α) (i : Nat) : Yields (pure a) i a i := fun s hc hi => ⟨s, rfl, hc, hi⟩

theorem Yields.bind (hm : Yields m i a j) (hk : Yields (k a) j b l) : Yields (m >>= k) i b l := by
  intro s hc hi
  obtain ⟨s₁, hrun, hc₁, hj⟩ := hm s hc hi
  obtain ⟨s₂, hrun₂, hend⟩ := hk s₁ hc₁ hj
  refine ⟨s₂, ?_, hend⟩
  rw [bind_ok hrun, hrun₂]

theorem yields_check {x : Except Status α} (h : x = .ok a) (i : Nat) : Yields (check x) i a i := by
  intro s hc hi
  subst h
  exact ⟨s, rfl, hc, hi⟩

theorem yields_ensure {c : Bool} (h : c = true) (e : Status) (i : Nat) : Yields (ensure c e) i () i := by
  intro s hc hi
  subst h
  exact ⟨s, rfl, hc, hi⟩

theorem yields_read {file : ReadableFile} {r : FileReader α} (h : r file i = .ok (a, j)) :
    Yields (read file r) i a j := by
  intro s hc hi
  refine ⟨{ s with offset := j }, ?_, ⟨hc.sound, hc.quiet⟩, rfl⟩
  unfold read
  rw [hi, h]

theorem yields_setOffset (i j : Nat) : Yields (setOffset j) i () j := fun s hc _ =>
  ⟨{ s with offset := j }, rfl, ⟨hc.sound, hc.quiet⟩, rfl⟩

/-- In a calm state bytes are allocated, wherever they come to lie. -/
theorem yields_alloc_bind {k : Option Pointer → LoadM β} (n : Nat) (hk : ∀ p, Yields (k p) i b j) :
    Yields (alloc n >>= k) i b j := by
  intro s hc hi
  have hgrant : ∃ p s', alloc n s = (.ok p, s') ∧ Calm s' ∧ s'.offset = i := by
    unfold alloc
    rcases alloc_cases hc.sound n 1 with ⟨-, heq⟩ | ⟨p, memory, heq, hall, -, hquiet⟩ | ⟨e, memory, -, -,
      -, hthrows⟩
    · rw [heq]
      exact ⟨none, s, rfl, hc, hi⟩
    · rw [heq]
      exact ⟨some p, { s with memory }, rfl, ⟨hall.sound, hquiet hc.quiet⟩, hi⟩
    · exact absurd hc.quiet (hthrows ⟨0, rfl⟩)
  obtain ⟨p, s₁, hrun, hc₁, hi₁⟩ := hgrant
  obtain ⟨s₂, hrun₂, hend⟩ := hk p s₁ hc₁ hi₁
  exact ⟨s₂, by rw [bind_ok hrun, hrun₂], hend⟩

theorem Yields.rollingBack (h : Yields m i a j) : Yields (rollingBack m) i a j := by
  intro s hc hi
  obtain ⟨s', hrun, hend⟩ := h s hc hi
  exact ⟨s', rollingBack_ok.mpr hrun, hend⟩

theorem Yields.withCursor {cursor : Nat} (h : Yields m cursor a j) (i : Nat) :
    Yields (withCursor cursor m) i (a, j) i := by
  intro s hc hi
  obtain ⟨s', hrun, hc', hj⟩ := h { s with offset := cursor } ⟨hc.sound, hc.quiet⟩ rfl
  refine ⟨{ s' with offset := s.offset }, ?_, ⟨hc'.sound, hc'.quiet⟩, hi⟩
  unfold LoadM.withCursor
  rw [hrun, ← hj]

end

end LoadM

end Kvdb
