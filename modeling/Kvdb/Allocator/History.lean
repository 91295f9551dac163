import Kvdb.Allocator.Checkpoints

/-!
# Histories of an arena

A history is a run of calls on one arena, with the allocations that are still in
use and every checkpoint that was taken.  A checkpoint is superseded once the
arena is reset, or rolled back to an older checkpoint.

* `run_tracked`: the arena extends the one of each checkpoint that is not
  superseded, whatever was rolled back to.
* `run_orderly`: while no superseded checkpoint is used, the allocations lie in
  their pages, apart from each other.
-/

namespace Kvdb

namespace Arena

/-- Bytes that a caller may use. -/
structure Allocation where
  ptr : Pointer
  size : Nat
  alignment : Nat
deriving DecidableEq, Repr

/-- A checkpoint: the arena it was taken of and the allocations of that time. -/
structure Mark where
  arena : Arena
  live : List Allocation
  superseded : Bool := false
deriving DecidableEq, Repr

/-- The checkpoints are in the order in which they were taken. -/
structure History where
  memory : Memory
  live : List Allocation := []
  marks : List Mark := []
deriving DecidableEq, Repr

inductive Op where
  | alloc (n alignment : Nat)
  | new (T : ObjectType) (throws : Bool)
  | newArray (T : ObjectType) (count : Nat) (throwsAt : Option Nat)
  | checkpoint
  | rollback (i : Nat)
  | reset (releaseAll : Bool)

def Mark.supersede (mark : Mark) : Mark := { mark with superseded := true }

/-- The end of a call that allocates. -/
def History.allocated (h : History) (size alignment : Nat) : Option Pointer → Memory → History
  | some ptr, memory => { h with memory, live := h.live ++ [⟨ptr, size, alignment⟩] }
  | none, memory => { h with memory }

def History.step (h : History) : Op → History
  | .alloc n alignment =>
    match Arena.alloc n alignment h.memory with
    | (.ok ptr, memory) => h.allocated n alignment ptr memory
    | (_, memory) => h.allocated n alignment none memory
  | .new T throws =>
    match arenaNew T throws h.memory with
    | (.ok ptr, memory) => h.allocated T.size T.alignment (some ptr) memory
    | (_, memory) => h.allocated T.size T.alignment none memory
  | .newArray T count throwsAt =>
    match arenaNewArray T count throwsAt h.memory with
    | (.ok ptr, memory) => h.allocated (T.size * count) T.alignment (some ptr) memory
    | (_, memory) => h.allocated (T.size * count) T.alignment none memory
  | .checkpoint => { h with marks := h.marks ++ [{ arena := h.memory.arena, live := h.live }] }
  | .rollback i =>
    match h.marks[i]? with
    | none => h
    | some mark =>
      match h.memory.arena.rollback mark.arena.checkpoint with
      | .error _ => h
      | .ok (arena, _) =>
        { memory := { h.memory with arena }
          live := mark.live
          marks := h.marks.take (i + 1) ++ (h.marks.drop (i + 1)).map Mark.supersede }
  | .reset releaseAll =>
    { memory := { h.memory with arena := (Arena.reset releaseAll h.memory.arena).1 }
      live := []
      marks := h.marks.map Mark.supersede }

def History.run (h : History) : List Op → History
  | [] => h
  | op :: ops => (h.step op).run ops

/-- A new arena, with the faults of the free store to come. -/
def History.start (arena : Arena) (faults : List Bool) : History where
  memory := { arena, heap := { faults } }

/-! ## What holds in every history -/

/-- Each checkpoint that is not superseded is one that the arena, and every later checkpoint, extends. -/
structure Tracked (h : History) : Prop where
  sound : Sound h.memory
  owner : ∀ mark ∈ h.marks, mark.arena.self = h.memory.arena.self
  current : ∀ mark ∈ h.marks, mark.superseded = false → Extends mark.arena h.memory.arena
  older : h.marks.Pairwise fun a b => a.superseded = false → Extends a.arena b.arena

section

variable {m m' : Memory} {a b r s : Arena}

/-- Cutting pages back to the counts of an extension of `l` leaves an extension of `l`. -/
theorem Grown.cut {l cp pages : List Page} (h : Grown l cp) (h' : Grown l pages) (hlen : cp.length ≤ pages.length) :
    Grown l (Arena.cut cp.length (if cp = [] then 0 else (cp.getLastD {}).used) pages) := by
  rcases h with rfl | ⟨init, p, u, more, rfl, rfl, hu⟩
  · exact .inl rfl
  rcases h' with hnil | ⟨init', p', v, more', heq, rfl, hv⟩
  · simp at hnil
  obtain ⟨rfl, hp⟩ := List.append_inj' heq rfl
  cases hp
  refine .inr ⟨init, p, ?_⟩
  have hne : init ++ { p with used := u } :: more ≠ [] := by simp
  unfold Arena.cut
  rw [if_neg hne, if_pos (List.length_pos_of_ne_nil hne)]
  rcases List.eq_nil_or_concat' more with rfl | ⟨more₀, q, rfl⟩
  · -- the checkpoint's last page is the last one of `l`
    have hcut : (init ++ { p with used := v } :: more').take (init ++ [{ p with used := u }]).length =
        init ++ [{ p with used := v }] := by
      rw [show init ++ { p with used := v } :: more' = (init ++ [{ p with used := v }]) ++ more' by simp]
      rw [List.take_left' (by simp)]
    rw [hcut, List.getLastD_concat, cutBack_concat]
    refine ⟨min v u, [], rfl, rfl, ?_⟩
    exact Nat.le_min.mpr ⟨hv, hu⟩
  · have hlen' : more₀.length + 1 ≤ more'.length := by
      rw [List.length_append, List.length_append, List.length_cons, List.length_cons, List.length_append,
        List.length_singleton] at hlen
      omega
    obtain ⟨kept, q', hkept⟩ : ∃ kept q', more'.take (more₀.length + 1) = kept ++ [q'] := by
      rcases List.eq_nil_or_concat' (more'.take (more₀.length + 1)) with hnil | hcons
      · have hzero := congrArg List.length hnil
        rw [List.length_take, List.length_nil] at hzero
        omega
      · exact hcons
    have hcut : (init ++ { p with used := v } :: more').take (init ++ { p with used := u } :: (more₀ ++ [q])).length =
        (init ++ { p with used := v } :: kept) ++ [q'] := by
      rw [List.length_append, List.take_length_add_append, List.length_cons, List.take_succ_cons, List.length_append,
        List.length_singleton, hkept]
      simp
    rw [hcut, cutBack_concat, List.append_assoc]
    exact ⟨v, kept ++ [_], rfl, rfl, hv⟩

/-- A rollback to a checkpoint that was taken of an extension of `r` leaves an extension of `r`, superseded
or not. -/
theorem Extends.rolledBack {destroyed : List DestructorEntry} (hs : Extends r s) (ha : Extends r a)
    (hroll : a.rollback s.checkpoint = .ok (b, destroyed)) : Extends r b := by
  rw [rollback_eq (hs.self.trans ha.self.symm)] at hroll
  split at hroll
  · next hreach =>
    obtain ⟨hpages, -⟩ := reaches_iff.mp hreach
    cases hroll
    refine ⟨ha.self, ha.pageSize, ha.largeThreshold, hs.pages.cut ha.pages hpages, ?_, ?_⟩
    · exact List.prefix_take_iff.mpr ⟨ha.large, hs.large.length_le⟩
    · exact List.prefix_take_iff.mpr ⟨ha.destructors, hs.destructors.length_le⟩
  · cases hroll

/-- The pages after a rollback are pages of before, used no further. -/
theorem cut_pages (count u : Nat) (pages : List Page) :
    ((cut count u pages).map Page.base).Sublist (pages.map Page.base) ∧
      ∀ p ∈ cut count u pages, ∃ q ∈ pages, p.base = q.base ∧ p.cap = q.cap ∧ p.alignment = q.alignment ∧
        p.used ≤ q.used := by
  have htake : ((pages.take count).map Page.base).Sublist (pages.map Page.base) :=
    (List.take_sublist _ _).map _
  have hself : ∀ p ∈ pages.take count, ∃ q ∈ pages, p.base = q.base ∧ p.cap = q.cap ∧
      p.alignment = q.alignment ∧
      p.used ≤ q.used := by
    intro p hp
    exact ⟨p, List.mem_of_mem_take hp, rfl, rfl, rfl, Nat.le_refl _⟩
  unfold cut
  split
  · rcases List.eq_nil_or_concat' (pages.take count) with hnil | ⟨init, p, hp⟩
    · rw [hnil]
      simp [cutBack]
    · rw [hp] at htake hself ⊢
      rw [cutBack_concat]
      refine ⟨by simpa using htake, ?_⟩
      intro q hq
      rcases List.mem_append.mp hq with hq | hq
      · exact hself q (List.mem_append_left _ hq)
      · cases List.mem_singleton.mp hq
        obtain ⟨p', hp', hbase, hcap, halign, hused⟩ := hself p (by simp)
        exact ⟨p', hp', hbase, hcap, halign, Nat.le_trans (Nat.min_le_left _ _) hused⟩
  · exact ⟨htake, hself⟩

/-- An arena with fewer pages, used no further. -/
theorem Sound.shrink {arena : Arena} (h : Sound m) (hsize : arena.pageSize = m.arena.pageSize)
    (hsub : (arena.pages.map Page.base).Sublist (m.arena.pages.map Page.base))
    (hpages : ∀ p ∈ arena.pages, ∃ q ∈ m.arena.pages, p.base = q.base ∧ p.cap = q.cap ∧
      p.alignment = q.alignment ∧
      p.used ≤ q.used)
    (hlarge : arena.large.Sublist m.arena.large) : Sound { m with arena } := by
  refine ⟨?_, ?_, ?_, ?_, ?_⟩
  · show arena.pageSize ≤ maxPageSize
    rw [hsize]
    exact h.pageSize
  · intro p hp
    obtain ⟨q, hq, -, hcap, halign, hused⟩ := hpages p hp
    obtain ⟨hused', hcap', halign'⟩ := h.normal q hq
    exact ⟨by omega, by omega, halign.trans halign'⟩
  · intro p hp
    exact h.large p (hlarge.subset hp)
  · have hblocks := h.blocks
    rw [List.map_append] at hblocks ⊢
    exact (hsub.append (hlarge.map _)).nodup hblocks
  · intro p hp
    rcases List.mem_append.mp hp with hp | hp
    · obtain ⟨q, hq, hbase, -⟩ := hpages p hp
      rw [hbase]
      exact h.fresh q (List.mem_append_left _ hq)
    · exact h.fresh p (List.mem_append_right _ (hlarge.subset hp))

theorem Sound.rollback {cp : Checkpoint} {destroyed : List DestructorEntry} (h : Sound m)
    (hself : cp.owner = m.arena.self) (hroll : m.arena.rollback cp = .ok (b, destroyed)) :
    Sound { m with arena := b } ∧ b.self = m.arena.self := by
  rw [rollback_eq hself] at hroll
  split at hroll
  · cases hroll
    obtain ⟨hsub, hpages⟩ := cut_pages cp.pageCount cp.pageUsed m.arena.pages
    exact ⟨h.shrink rfl hsub hpages (List.take_sublist _ _), rfl⟩
  · cases hroll

theorem Sound.reset (h : Sound m) (releaseAll : Bool) :
    Sound { m with arena := (Arena.reset releaseAll m.arena).1 } := by
  have htake : ∀ p ∈ (m.arena.pages.take 1).map fun page => { page with used := 0 }, ∃ q ∈ m.arena.pages,
      p.base = q.base ∧ p.cap = q.cap ∧ p.alignment = q.alignment ∧ p.used ≤ q.used := by
    intro p hp
    obtain ⟨q, hq, rfl⟩ := List.mem_map.mp hp
    exact ⟨q, List.mem_of_mem_take hq, rfl, rfl, rfl, Nat.zero_le _⟩
  cases releaseAll with
  | true =>
    refine @Sound.shrink m (Arena.reset true m.arena).1 h rfl (List.nil_sublist _) ?_ (List.nil_sublist _)
    intro p hp
    cases hp
  | false =>
    refine @Sound.shrink m (Arena.reset false m.arena).1 h rfl ?_ htake (List.nil_sublist _)
    show (((m.arena.pages.take 1).map fun page => { page with used := 0 }).map Page.base).Sublist _
    rw [List.map_map]
    exact (List.take_sublist _ _).map _

variable {h : History}

/-- The extended checkpoints of a history, when its arena is extended. -/
theorem Tracked.extend (ht : Tracked h) (live : List Allocation) (hs : Sound m')
    (hext : Extends h.memory.arena m'.arena) : Tracked { h with memory := m', live } :=
  ⟨hs, fun mark hm => (ht.owner mark hm).trans hext.self.symm,
    fun mark hm hmark => (ht.current mark hm hmark).trans hext, ht.older⟩

theorem Untouched.extends_ (hun : Untouched m m') : Extends m.arena m'.arena := by
  rw [hun.arena]
  exact Extends.refl _

/-- A call that allocates, in any of its forms. -/
structure Grants (h : History) (size alignment : Nat) (ptr : Pointer) (h' : History) : Prop where
  allocates : Allocates size alignment ptr h.memory h'.memory
  pos : 0 < size
  live : h'.live = h.live ++ [⟨ptr, size, alignment⟩]
  marks : h'.marks = h.marks

/-- One that does not. -/
structure Declines (h h' : History) : Prop where
  untouched : Untouched h.memory h'.memory
  live : h'.live = h.live
  marks : h'.marks = h.marks

/-- What one call does to a history. -/
inductive Steps (h : History) : Op → History → Prop where
  | grants {op : Op} {h' : History} (size alignment : Nat) (ptr : Pointer) (hg : Grants h size alignment ptr h') :
    Steps h op h'
  | declines {op : Op} {h' : History} (hd : Declines h h') : Steps h op h'
  | checkpoint : Steps h .checkpoint { h with marks := h.marks ++ [{ arena := h.memory.arena, live := h.live }] }
  | rollback {i : Nat} {mark : Mark} {arena : Arena} {destroyed : List DestructorEntry} (hm : h.marks[i]? = some mark)
    (hroll : h.memory.arena.rollback mark.arena.checkpoint = .ok (arena, destroyed)) :
    Steps h (.rollback i)
      { memory := { h.memory with arena }
        live := mark.live
        marks := h.marks.take (i + 1) ++ (h.marks.drop (i + 1)).map Mark.supersede }
  | reset (releaseAll : Bool) :
    Steps h (.reset releaseAll)
      { memory := { h.memory with arena := (Arena.reset releaseAll h.memory.arena).1 }
        live := []
        marks := h.marks.map Mark.supersede }

theorem step_steps (ht : Sound h.memory) (op : Op) : Steps h op (h.step op) := by
  cases op with
  | alloc n alignment =>
    rcases alloc_cases ht n alignment with ⟨hzero, heq⟩ | ⟨ptr, m', heq, hall, hn, -⟩ | ⟨e, m', heq, hun, -⟩
    · refine .declines ⟨?_, ?_, ?_⟩ <;> rw [History.step, heq]
      · exact Untouched.refl _
      · rfl
      · rfl
    · rw [History.step, heq]
      exact .grants n alignment ptr ⟨hall, hn, rfl, rfl⟩
    · rw [History.step, heq]
      exact .declines ⟨hun, rfl, rfl⟩
  | new T throws =>
    rcases arenaNew_cases ht T throws with ⟨ptr, m', heq, hall⟩ | ⟨e, m', heq, hun⟩
    · rw [History.step, heq]
      exact .grants T.size T.alignment ptr ⟨hall, T.sizePos, rfl, rfl⟩
    · rw [History.step, heq]
      exact .declines ⟨hun, rfl, rfl⟩
  | newArray T count throwsAt =>
    rcases arenaNewArray_cases ht T count throwsAt with ⟨ptr, m', heq, hall, hpos⟩ | ⟨e, m', heq, hun⟩
    · rw [History.step, heq]
      exact .grants (T.size * count) T.alignment ptr ⟨hall, hpos, rfl, rfl⟩
    · rw [History.step, heq]
      exact .declines ⟨hun, rfl, rfl⟩
  | checkpoint => exact .checkpoint
  | rollback i =>
    rw [History.step]
    cases hm : h.marks[i]? with
    | none => exact .declines ⟨Untouched.refl _, rfl, rfl⟩
    | some mark =>
      dsimp only
      cases hroll : h.memory.arena.rollback mark.arena.checkpoint with
      | error text => exact .declines ⟨Untouched.refl _, rfl, rfl⟩
      | ok result =>
        obtain ⟨arena, destroyed⟩ := result
        exact .rollback hm hroll
  | reset releaseAll => exact .reset releaseAll

theorem superseded_of_mem {marks : List Mark} {mark : Mark} (hm : mark ∈ marks.map Mark.supersede) :
    mark.superseded = true := by
  obtain ⟨old, -, rfl⟩ := List.mem_map.mp hm
  rfl

/-- The arena at each remaining checkpoint is one of before, at the same place. -/
theorem supersede_pairwise {marks : List Mark}
    (hp : marks.Pairwise fun a b => a.superseded = false → Extends a.arena b.arena) :
    (marks.map Mark.supersede).Pairwise fun a b => a.superseded = false → Extends a.arena b.arena := by
  rw [List.pairwise_map]
  refine hp.imp ?_
  intro a b _ hfalse
  cases hfalse

theorem Steps.tracked {op : Op} {h' : History} (hs : Steps h op h') (ht : Tracked h) : Tracked h' := by
  cases hs with
  | grants size alignment ptr hg =>
    obtain ⟨hall, -, -, hmarks⟩ := hg
    obtain ⟨memory', live', marks'⟩ := h'
    cases hmarks
    exact ht.extend live' hall.sound hall.extends_
  | declines hd =>
    obtain ⟨hun, -, hmarks⟩ := hd
    obtain ⟨memory', live', marks'⟩ := h'
    cases hmarks
    exact ht.extend live' (ht.sound.untouched hun) hun.extends_
  | checkpoint =>
    refine ⟨ht.sound, ?_, ?_, ?_⟩
    · intro mark hm
      rcases List.mem_append.mp hm with hm | hm
      · exact ht.owner mark hm
      · cases List.mem_singleton.mp hm
        rfl
    · intro mark hm hmark
      rcases List.mem_append.mp hm with hm | hm
      · exact ht.current mark hm hmark
      · cases List.mem_singleton.mp hm
        exact Extends.refl _
    · rw [List.pairwise_append]
      refine ⟨ht.older, List.pairwise_singleton _ _, ?_⟩
      intro a ha b hb hmark
      cases List.mem_singleton.mp hb
      exact ht.current a ha hmark
  | @rollback i mark arena destroyed hm hroll =>
    have hmem := List.mem_of_getElem? hm
    obtain ⟨hsound, hself⟩ := ht.sound.rollback (ht.owner mark hmem) hroll
    have hlt := (List.getElem?_eq_some_iff.mp hm).1
    refine ⟨hsound, ?_, ?_, ?_⟩
    · intro m' hm'
      refine Eq.trans ?_ hself.symm
      rcases List.mem_append.mp hm' with hm' | hm'
      · exact ht.owner m' (List.mem_of_mem_take hm')
      · obtain ⟨old, hold, rfl⟩ := List.mem_map.mp hm'
        exact ht.owner old (List.mem_of_mem_drop hold)
    · intro r hr hfalse
      rcases List.mem_append.mp hr with hr | hr
      · -- a checkpoint up to the one that is rolled back to
        have hcur := ht.current r (List.mem_of_mem_take hr) hfalse
        refine Extends.rolledBack ?_ hcur hroll
        rw [List.take_add_one, hm] at hr
        rcases List.mem_append.mp hr with hr | hr
        · have hsplit := List.take_append_drop i h.marks
          have hp := ht.older
          rw [← hsplit] at hp
          have hmark : mark ∈ h.marks.drop i := by
            refine List.mem_iff_getElem?.mpr ⟨0, ?_⟩
            rw [List.getElem?_drop]
            exact hm
          exact (List.pairwise_append.mp hp).2.2 r hr mark hmark hfalse
        · cases List.mem_singleton.mp hr
          exact Extends.refl _
      · rw [superseded_of_mem hr] at hfalse
        cases hfalse
    · have hsplit := List.take_append_drop (i + 1) h.marks
      have hp := ht.older
      rw [← hsplit] at hp
      obtain ⟨hfirst, hlast, hcross⟩ := List.pairwise_append.mp hp
      rw [List.pairwise_append]
      refine ⟨hfirst, supersede_pairwise hlast, ?_⟩
      intro a ha b hb hfalse
      obtain ⟨old, hold, rfl⟩ := List.mem_map.mp hb
      exact hcross a ha old hold hfalse
  | reset releaseAll =>
    refine ⟨ht.sound.reset releaseAll, ?_, ?_, supersede_pairwise ht.older⟩
    · intro mark hm
      obtain ⟨old, hold, rfl⟩ := List.mem_map.mp hm
      exact ht.owner old hold
    · intro mark hm hfalse
      rw [superseded_of_mem hm] at hfalse
      cases hfalse

theorem run_tracked (ht : Tracked h) (ops : List Op) : Tracked (h.run ops) := by
  induction ops generalizing h with
  | nil => exact ht
  | cons op ops ih => exact ih ((step_steps ht.sound op).tracked ht)

theorem start_tracked {self pageSize largeThreshold : Nat} {arena : Arena}
    (hmake : make self pageSize largeThreshold = .ok arena) (faults : List Bool) :
    Tracked (History.start arena faults) := by
  unfold make at hmake
  split at hmake
  · cases hmake
  split at hmake
  · cases hmake
  split at hmake
  · cases hmake
  cases hmake
  refine ⟨⟨?_, ?_, ?_, List.nodup_nil, ?_⟩, ?_, ?_, List.Pairwise.nil⟩
  · show pageSize ≤ maxPageSize
    omega
  all_goals
    intro x hx
    cases hx

/-! ## The allocations -/

/-- The bytes lie in the used part of a page, at an aligned offset. -/
def Placed (a : Arena) (x : Allocation) : Prop :=
  ∃ p ∈ a.pages ++ a.large, p.base = x.ptr.block ∧ x.ptr.offset + x.size ≤ p.used ∧ p.used ≤ p.cap ∧
    x.alignment ∣ x.ptr.offset ∧ x.alignment ∣ p.alignment

/-- The bytes lie above everything that is used. -/
def Beyond (a : Arena) (x : Allocation) : Prop :=
  ∀ p ∈ a.pages ++ a.large, p.base = x.ptr.block → p.used ≤ x.ptr.offset

def Apart (x y : Allocation) : Prop :=
  x.ptr.block ≠ y.ptr.block ∨ x.ptr.offset + x.size ≤ y.ptr.offset ∨ y.ptr.offset + y.size ≤ x.ptr.offset

structure Housed (a : Arena) (live : List Allocation) : Prop where
  placed : ∀ x ∈ live, 0 < x.size ∧ Placed a x
  apart : live.Pairwise Apart

/-- Allocations were made behind a state of the arena. -/
def Since (a : Arena) (live live' : List Allocation) : Prop :=
  ∃ made, live' = live ++ made ∧ ∀ x ∈ made, Beyond a x

/-- A history in which only checkpoints that are not superseded were rolled back to. -/
structure Orderly (h : History) : Prop extends Tracked h where
  housed : Housed h.memory.arena h.live
  marked : ∀ mark ∈ h.marks, mark.superseded = false →
    Housed mark.arena mark.live ∧ Since mark.arena mark.live h.live
  between : h.marks.Pairwise fun a b => a.superseded = false → Since a.arena a.live b.live

theorem Sound.used_le (hs : Sound m) {p : Page} (hp : p ∈ m.arena.pages ++ m.arena.large) : p.used ≤ p.cap := by
  rcases List.mem_append.mp hp with hp | hp
  · exact (hs.normal p hp).1
  · exact hs.large p hp

theorem Placed.extend {x : Allocation} (hx : Placed a x) (hs : Sound m) (hext : Extends a m.arena) :
    Placed m.arena x := by
  obtain ⟨p, hp, hbase, hend, -, hdvd, hpage⟩ := hx
  obtain ⟨q, hq, hsame, -, halign, hused⟩ := hext.page hp
  exact ⟨q, hq, hsame.trans hbase, by omega, hs.used_le hq, hdvd, halign ▸ hpage⟩

theorem Beyond.shrink {x : Allocation} (hx : Beyond b x) (hext : Extends a b) : Beyond a x := by
  intro p hp hbase
  obtain ⟨q, hq, hsame, -, -, hused⟩ := hext.page hp
  have hle := hx q hq (hsame.trans hbase)
  omega

theorem Placed.apart {x y : Allocation} (hx : Placed a x) (hy : Beyond a y) : Apart x y := by
  obtain ⟨p, hp, hbase, hend, -⟩ := hx
  by_cases hblock : x.ptr.block = y.ptr.block
  · right
    left
    have hle := hy p hp (hbase.trans hblock)
    omega
  · left
    exact hblock

theorem Since.refl (a : Arena) (live : List Allocation) : Since a live live := by
  refine ⟨[], (List.append_nil _).symm, ?_⟩
  intro x hx
  cases hx

theorem Since.snoc {live live' : List Allocation} {x : Allocation} (hsince : Since a live live') (hx : Beyond a x) :
    Since a live (live' ++ [x]) := by
  obtain ⟨made, rfl, hmade⟩ := hsince
  refine ⟨made ++ [x], List.append_assoc _ _ _, ?_⟩
  intro y hy
  rcases List.mem_append.mp hy with hy | hy
  · exact hmade y hy
  · cases List.mem_singleton.mp hy
    exact hx

theorem Housed.snoc {live : List Allocation} {size alignment : Nat} {ptr : Pointer} (hh : Housed m.arena live)
    (hall : Allocates size alignment ptr m m') (hpos : 0 < size) :
    Housed m'.arena (live ++ [⟨ptr, size, alignment⟩]) := by
  constructor
  · intro x hx
    rcases List.mem_append.mp hx with hx | hx
    · obtain ⟨hsize, hplaced⟩ := hh.placed x hx
      exact ⟨hsize, hplaced.extend hall.sound hall.extends_⟩
    · cases List.mem_singleton.mp hx
      obtain ⟨p, hp, hbase, hend, hdvd, hpage⟩ := hall.page
      exact ⟨hpos, p, hp, hbase, hend, hall.sound.used_le hp, hdvd, hpage⟩
  · rw [List.pairwise_append]
    refine ⟨hh.apart, List.pairwise_singleton _ _, ?_⟩
    intro x hx y hy
    cases List.mem_singleton.mp hy
    exact (hh.placed x hx).2.apart hall.above

/-- The arena is behind the counts of the checkpoint: fewer pages, large allocations or destructors, or
less used on the checkpoint's last page. -/
def Regressed (a : Arena) (cp : Checkpoint) : Prop :=
  a.pages.length < cp.pageCount ∨ a.large.length < cp.largeCount ∨ a.destructors.length < cp.destructorCount ∨
    (0 < cp.pageCount ∧ (a.pages.getD (cp.pageCount - 1) {}).used < cp.pageUsed)

instance (a : Arena) (cp : Checkpoint) : Decidable (Regressed a cp) :=
  inferInstanceAs (Decidable (_ ∨ _ ∨ _ ∨ _))

theorem rollback_error_iff {cp : Checkpoint} (hself : cp.owner = a.self) :
    (∃ text, a.rollback cp = .error text) ↔ Regressed a cp := by
  have hreach : a.reaches cp = true ↔ ¬ Regressed a cp := by
    unfold reaches Regressed
    simp only [Bool.and_eq_true, Bool.or_eq_true, decide_eq_true_eq]
    omega
  rw [rollback_eq hself]
  by_cases hr : Regressed a cp
  · rw [if_neg (by rw [hreach]; exact not_not.mpr hr)]
    exact ⟨fun _ => hr, fun _ => ⟨_, rfl⟩⟩
  · rw [if_pos (hreach.mpr hr)]
    constructor
    · rintro ⟨text, heq⟩
      cases heq
    · intro hr'
      exact absurd hr' hr

/-- Where a superseded checkpoint is rolled back to, the counts tell that it is. -/
def History.guardedStep (h : History) (op : Op) : Prop :=
  ∀ i mark, op = .rollback i → h.marks[i]? = some mark → mark.superseded = true →
    Regressed h.memory.arena mark.arena.checkpoint

def History.guarded (h : History) : List Op → Prop
  | [] => True
  | op :: ops => h.guardedStep op ∧ (h.step op).guarded ops

/-- No superseded checkpoint is rolled back to. -/
def History.inOrderStep (h : History) : Op → Bool
  | .rollback i => h.marks[i]?.all fun mark => !mark.superseded
  | _ => true

def History.inOrder (h : History) : List Op → Bool
  | [] => true
  | op :: ops => h.inOrderStep op && (h.step op).inOrder ops

theorem inOrder_guarded {ops : List Op} (ho : h.inOrder ops = true) : h.guarded ops := by
  induction ops generalizing h with
  | nil => exact trivial
  | cons op ops ih =>
    rw [History.inOrder, Bool.and_eq_true] at ho
    refine ⟨?_, ih ho.2⟩
    rintro i mark rfl hm hsup
    have hall := ho.1
    rw [History.inOrderStep, hm, Option.all_some, hsup] at hall
    cases hall

theorem Orderly.grants {size alignment : Nat} {ptr : Pointer} {h' : History} (ho : Orderly h)
    (hg : Grants h size alignment ptr h') : Orderly h' := by
  have hsteps : Steps h .checkpoint h' := .grants size alignment ptr hg
  have ht := hsteps.tracked ho.toTracked
  obtain ⟨hall, hpos, hlive, hmarks⟩ := hg
  refine ⟨ht, ?_, ?_, ?_⟩
  · rw [hlive]
    exact ho.housed.snoc hall hpos
  · rw [hmarks, hlive]
    intro mark hm hfalse
    obtain ⟨hhoused, hsince⟩ := ho.marked mark hm hfalse
    exact ⟨hhoused, hsince.snoc (Beyond.shrink hall.above (ho.current mark hm hfalse))⟩
  · rw [hmarks]
    exact ho.between

theorem Orderly.declines {h' : History} (ho : Orderly h) (hd : Declines h h') : Orderly h' := by
  have hsteps : Steps h .checkpoint h' := .declines hd
  have ht := hsteps.tracked ho.toTracked
  obtain ⟨hun, hlive, hmarks⟩ := hd
  refine ⟨ht, ?_, ?_, ?_⟩
  · rw [hun.arena, hlive]
    exact ho.housed
  · rw [hmarks, hlive]
    exact ho.marked
  · rw [hmarks]
    exact ho.between

theorem Steps.orderly {op : Op} {h' : History} (hs : Steps h op h') (hg : h.guardedStep op) (ho : Orderly h) :
    Orderly h' := by
  have ht := hs.tracked ho.toTracked
  cases hs with
  | grants size alignment ptr hgr => exact ho.grants hgr
  | declines hd => exact ho.declines hd
  | checkpoint =>
    refine ⟨ht, ho.housed, ?_, ?_⟩
    · intro mark hm hfalse
      rcases List.mem_append.mp hm with hm | hm
      · exact ho.marked mark hm hfalse
      · cases List.mem_singleton.mp hm
        exact ⟨ho.housed, Since.refl _ _⟩
    · rw [List.pairwise_append]
      refine ⟨ho.between, List.pairwise_singleton _ _, ?_⟩
      intro a ha b hb hfalse
      cases List.mem_singleton.mp hb
      exact (ho.marked a ha hfalse).2
  | @rollback i mark arena destroyed hm hroll =>
    have hmem := List.mem_of_getElem? hm
    have hfalse : mark.superseded = false := by
      cases hsup : mark.superseded with
      | false => rfl
      | true =>
        -- it would have been refused
        have hreg := hg i mark rfl hm hsup
        obtain ⟨text, herr⟩ := (rollback_error_iff (ho.owner mark hmem)).mpr hreg
        rw [hroll] at herr
        cases herr
    have hback := (ho.current mark hmem hfalse).rollback
    rw [hroll] at hback
    cases hback
    obtain ⟨hhoused, -⟩ := ho.marked mark hmem hfalse
    have hsplit := List.take_append_drop (i + 1) h.marks
    have hp := ho.between
    rw [← hsplit] at hp
    obtain ⟨hfirst, -, hcross⟩ := List.pairwise_append.mp hp
    refine ⟨ht, hhoused, ?_, ?_⟩
    · intro r hr hrfalse
      rcases List.mem_append.mp hr with hr | hr
      · refine ⟨(ho.marked r (List.mem_of_mem_take hr) hrfalse).1, ?_⟩
        rw [List.take_add_one, hm] at hr hfirst
        rcases List.mem_append.mp hr with hr | hr
        · exact (List.pairwise_append.mp hfirst).2.2 r hr mark (by simp) hrfalse
        · cases List.mem_singleton.mp hr
          exact Since.refl _ _
      · rw [superseded_of_mem hr] at hrfalse
        cases hrfalse
    · rw [List.pairwise_append]
      refine ⟨hfirst, ?_, ?_⟩
      · rw [List.pairwise_map]
        refine List.pairwise_of_forall ?_
        intro a b hafalse
        cases hafalse
      · intro a ha b hb hafalse
        obtain ⟨old, hold, rfl⟩ := List.mem_map.mp hb
        exact hcross a ha old hold hafalse
  | reset releaseAll =>
    refine ⟨ht, ⟨?_, List.Pairwise.nil⟩, ?_, ?_⟩
    · intro x hx
      cases hx
    · intro mark hm hfalse
      rw [superseded_of_mem hm] at hfalse
      cases hfalse
    · rw [List.pairwise_map]
      refine List.pairwise_of_forall ?_
      intro a b hafalse
      cases hafalse

theorem run_orderly {ops : List Op} (hg : h.guarded ops) (ho : Orderly h) : Orderly (h.run ops) := by
  induction ops generalizing h with
  | nil => exact ho
  | cons op ops ih => exact ih hg.2 ((step_steps ho.sound op).orderly hg.1 ho)

theorem start_orderly {self pageSize largeThreshold : Nat} {arena : Arena}
    (hmake : make self pageSize largeThreshold = .ok arena) (faults : List Bool) :
    Orderly (History.start arena faults) := by
  refine ⟨start_tracked hmake faults, ⟨?_, List.Pairwise.nil⟩, ?_, List.Pairwise.nil⟩
  · intro x hx
    cases hx
  · intro mark hm
    cases hm

/-! ## Results -/

/-- **Allocations.**  While checkpoints are rolled back to in order, the allocations in use lie aligned in
their pages and apart from each other; a rollback gives the arena of its checkpoint and takes back what was
allocated since; and no allocation finds too little space in its page. -/
theorem run_allocations {self pageSize largeThreshold : Nat} {arena : Arena}
    (hmake : make self pageSize largeThreshold = .ok arena) (faults : List Bool) (ops : List Op)
    (horder : (History.start arena faults).inOrder ops = true) :
    let h := (History.start arena faults).run ops
    (∀ x ∈ h.live, 0 < x.size ∧ Placed h.memory.arena x) ∧ h.live.Pairwise Apart ∧
      (∀ mark ∈ h.marks, mark.superseded = false →
        h.memory.arena.rollback mark.arena.checkpoint =
          .ok (mark.arena, (h.memory.arena.destructors.drop mark.arena.destructors.length).reverse) ∧
        (∀ x ∈ mark.live, Placed mark.arena x) ∧ Since mark.arena mark.live h.live) ∧
      ∀ n alignment, (alloc n alignment h.memory).1 ≠ .err notEnoughSpace := by
  intro h
  have ho : Orderly h := run_orderly (inOrder_guarded horder) (start_orderly hmake faults)
  refine ⟨ho.housed.placed, ho.housed.apart, ?_, ?_⟩
  · intro mark hm hfalse
    obtain ⟨hhoused, hsince⟩ := ho.marked mark hm hfalse
    exact ⟨(ho.current mark hm hfalse).rollback, fun x hx => (hhoused.placed x hx).2, hsince⟩
  · intro n alignment
    rcases alloc_cases ho.sound n alignment with ⟨-, heq⟩ | ⟨ptr, m', heq, -⟩ | ⟨e, m', heq, -, he, -⟩
    · rw [heq]
      intro hbad
      cases hbad
    · rw [heq]
      intro hbad
      cases hbad
    · rw [heq]
      intro hbad
      cases hbad
      exact he rfl

/-- An arena with small pages. -/
def smallArena : Arena := { self := 0, pageSize := 128, largeThreshold := 512 }

theorem run_allocations_rolledBack :
    let h := (History.start smallArena []).run
      [.alloc 100 8, .checkpoint, .alloc 100 16, .alloc 1000 64, .rollback 0, .alloc 10 4]
    h.live = [⟨⟨0, 0⟩, 100, 8⟩, ⟨⟨0, 100⟩, 10, 4⟩] ∧ h.live.Pairwise Apart ∧
      (alloc 100 8 h.memory).1 ≠ .err notEnoughSpace := by
  intro h
  have hall := @run_allocations 0 128 512 smallArena rfl []
    [.alloc 100 8, .checkpoint, .alloc 100 16, .alloc 1000 64, .rollback 0, .alloc 10 4] (by decide +kernel)
  exact ⟨by decide +kernel, hall.2.1, hall.2.2.2 100 8⟩

/-- A rollback to the checkpoint throws if and only if it is superseded, and otherwise gives the arena of
the checkpoint. -/
structure RejectsStale (h : History) (mark : Mark) : Prop where
  rejected : mark.superseded = true → ∃ text, h.memory.arena.rollback mark.arena.checkpoint = .error text
  accepted : mark.superseded = false → ∃ destroyed,
    h.memory.arena.rollback mark.arena.checkpoint = .ok (mark.arena, destroyed)

/-- **Stale checkpoints.**  They are rejected where the counts of the arena fell below theirs.  In a history
where that is so at each rollback, a rollback takes back what was allocated since its checkpoint, and keeps
the rest. -/
theorem rejectsStale_iff {self pageSize largeThreshold : Nat} {arena : Arena}
    (hmake : make self pageSize largeThreshold = .ok arena) (faults : List Bool) (ops : List Op) :
    let h := (History.start arena faults).run ops
    (∀ mark ∈ h.marks,
      RejectsStale h mark ↔ (mark.superseded = true → Regressed h.memory.arena mark.arena.checkpoint)) ∧
    ((History.start arena faults).guarded ops → ∀ mark ∈ h.marks, mark.superseded = false →
      (∀ x ∈ mark.live, Placed mark.arena x) ∧ Since mark.arena mark.live h.live) := by
  intro h
  have ht : Tracked h := run_tracked (start_tracked hmake faults) ops
  constructor
  · intro mark hm
    have herror := @rollback_error_iff h.memory.arena mark.arena.checkpoint (ht.owner mark hm)
    constructor
    · intro hr hsup
      exact herror.mp (hr.rejected hsup)
    · intro hreg
      exact ⟨fun hsup => herror.mpr (hreg hsup), fun hfalse => ⟨_, (ht.current mark hm hfalse).rollback⟩⟩
  · intro hg mark hm hfalse
    have ho : Orderly h := run_orderly hg (start_orderly hmake faults)
    obtain ⟨hhoused, hsince⟩ := ho.marked mark hm hfalse
    exact ⟨fun x hx => (hhoused.placed x hx).2, hsince⟩

theorem rejectsStale_iff_reset :
    let h := (History.start smallArena []).run [.alloc 32 8, .checkpoint, .reset true]
    ∀ mark ∈ h.marks, RejectsStale h mark := by
  intro h mark hm
  have hall := @rejectsStale_iff 0 128 512 smallArena rfl [] [.alloc 32 8, .checkpoint, .reset true]
  have hreg : ∀ mark ∈ h.marks, Regressed h.memory.arena mark.arena.checkpoint := by decide +kernel
  exact (hall.1 mark hm).mpr fun _ => hreg mark hm

/-- After a reset that keeps the first page, an allocation there hides that the checkpoint is stale.  The
rollback takes the second half of that allocation back and keeps the first. -/
theorem stale_accepted :
    let h := (History.start smallArena []).run [.alloc 32 8, .checkpoint, .reset false, .alloc 64 8]
    (∃ mark ∈ h.marks, ¬ RejectsStale h mark) ∧ h.live = [⟨⟨0, 0⟩, 64, 8⟩] ∧
      (h.step (.rollback 0)).memory.arena.pages = [{ base := 0, cap := 128, used := 32, alignment := 16 }] := by
  intro h
  refine ⟨⟨h.marks.getD 0 ⟨smallArena, [],
    false⟩, by decide +kernel, ?_⟩, by decide +kernel, by decide +kernel⟩
  intro hr
  obtain ⟨text, herr⟩ := hr.rejected (by decide +kernel)
  have hnot : ¬ Regressed h.memory.arena (h.marks.getD 0 ⟨smallArena, [], false⟩).arena.checkpoint := by
    decide +kernel
  exact hnot ((rollback_error_iff (by decide +kernel)).mp ⟨text, herr⟩)

end

end Arena

end Kvdb
