import Kvdb.Allocator.Arena
import Mathlib.Data.List.Nodup

/-!
# Allocations and checkpoints of the arena

One allocation is described by `Allocates`: the arena was extended, and the new
bytes lie above everything used in their page.  One that fails leaves the arena
alone (`Untouched`), and never for want of space in a page.

A rollback cuts the three lists back.  On an extension of the arena that the
checkpoint was taken of, that is the arena of the checkpoint again
(`Extends.rollback`).
-/

namespace Kvdb

open Faulty

namespace Arena

/-! ## Extensions -/

/-- Pages behind the last one, which may be used further. -/
def Grown (l l' : List Page) : Prop :=
  l = [] ∨ ∃ init p u more, l = init ++ [p] ∧ l' = init ++ { p with used := u } :: more ∧ p.used ≤ u

/-- What the allocations behind a checkpoint make of an arena. -/
structure Extends (a b : Arena) : Prop where
  self : b.self = a.self
  pageSize : b.pageSize = a.pageSize
  largeThreshold : b.largeThreshold = a.largeThreshold
  pages : Grown a.pages b.pages
  large : a.large <+: b.large
  destructors : a.destructors <+: b.destructors

theorem Grown.refl (l : List Page) : Grown l l := by
  rcases List.eq_nil_or_concat' l with h | ⟨init, p, h⟩
  · exact .inl h
  · exact .inr ⟨init, p, p.used, [], h, h, Nat.le_refl _⟩

theorem Grown.append (l more : List Page) : Grown l (l ++ more) := by
  rcases List.eq_nil_or_concat' l with h | ⟨init, p, h⟩
  · exact .inl h
  · refine .inr ⟨init, p, p.used, more, h, ?_, Nat.le_refl _⟩
    rw [h, List.append_assoc]
    rfl

theorem Grown.trans {l₁ l₂ l₃ : List Page} (h : Grown l₁ l₂) (h' : Grown l₂ l₃) : Grown l₁ l₃ := by
  rcases h with h | ⟨init, p, u, more, h₁, h₂, hu⟩
  · exact .inl h
  · refine .inr ?_
    rcases h' with h' | ⟨init', q, v, more', h₂', h₃, hv⟩
    · rw [h₂] at h'
      simp at h'
    · rw [h₂] at h₂'
      rcases List.eq_nil_or_concat' more with hm | ⟨more₀, q', hm⟩
      · -- the last page is still the last one
        subst hm
        obtain ⟨rfl, hq⟩ := List.append_inj' h₂' rfl
        cases hq
        exact ⟨init, p, v, more', h₁, h₃, Nat.le_trans hu hv⟩
      · subst hm
        rw [← List.cons_append, ← List.append_assoc] at h₂'
        obtain ⟨rfl, hq⟩ := List.append_inj' h₂' rfl
        exact ⟨init, p, u, more₀ ++ { q with used := v } :: more', h₁, by rw [h₃]; simp, hu⟩

theorem Grown.length_le {l l' : List Page} (h : Grown l l') : l.length ≤ l'.length := by
  rcases h with rfl | ⟨init, p, u, more, rfl, rfl, -⟩
  · exact Nat.zero_le _
  · simp

/-- Each page is there afterwards, used as far or further. -/
theorem Grown.page {l l' : List Page} (h : Grown l l') {p : Page} (hp : p ∈ l) :
    ∃ q ∈ l', q.base = p.base ∧ q.cap = p.cap ∧ q.alignment = p.alignment ∧ p.used ≤ q.used := by
  rcases h with rfl | ⟨init, q, u, more, rfl, rfl, hu⟩
  · cases hp
  · rcases List.mem_append.mp hp with hp | hp
    · exact ⟨p, List.mem_append_left _ hp, rfl, rfl, rfl, Nat.le_refl _⟩
    · cases List.mem_singleton.mp hp
      exact ⟨{ p with used := u }, by simp, rfl, rfl, rfl, hu⟩

theorem Extends.refl (a : Arena) : Extends a a :=
  ⟨rfl, rfl, rfl, Grown.refl _, List.prefix_refl _, List.prefix_refl _⟩

theorem Extends.trans {a b c : Arena} (h : Extends a b) (h' : Extends b c) : Extends a c :=
  ⟨h'.self.trans h.self, h'.pageSize.trans h.pageSize, h'.largeThreshold.trans h.largeThreshold,
    h.pages.trans h'.pages, h.large.trans h'.large, h.destructors.trans h'.destructors⟩

theorem Extends.page {a b : Arena} (h : Extends a b) {p : Page} (hp : p ∈ a.pages ++ a.large) :
    ∃ q ∈ b.pages ++ b.large, q.base = p.base ∧ q.cap = p.cap ∧ q.alignment = p.alignment ∧
      p.used ≤ q.used := by
  rcases List.mem_append.mp hp with hp | hp
  · obtain ⟨q, hq, hsame⟩ := h.pages.page hp
    exact ⟨q, List.mem_append_left _ hq, hsame⟩
  · exact ⟨p, List.mem_append_right _ (h.large.subset hp), rfl, rfl, rfl, Nat.le_refl _⟩

/-! ## Rollback -/

/-- The pages that `rollback` leaves. -/
def cut (pageCount pageUsed : Nat) (pages : List Page) : List Page :=
  if pageCount > 0 then cutBack pageUsed (pages.take pageCount) else pages.take pageCount

theorem cutBack_concat (u : Nat) (init : List Page) (p : Page) :
    cutBack u (init ++ [p]) = init ++ [{ p with used := min p.used u }] := by
  unfold cutBack
  rw [List.getLastD_concat, List.dropLast_concat]
  dsimp only
  split
  · rw [Nat.min_eq_right (by omega)]
  · rw [Nat.min_eq_left (by omega)]

theorem rollback_eq {cp : Checkpoint} {a : Arena} (hself : cp.owner = a.self) :
    a.rollback cp =
      if a.reaches cp = true then
        .ok ({ a with
            destructors := a.destructors.take cp.destructorCount
            pages := cut cp.pageCount cp.pageUsed a.pages
            large := a.large.take cp.largeCount }, (a.destructors.drop cp.destructorCount).reverse)
      else .error "Arena checkpoint is foreign or no longer reachable" := by
  unfold rollback destroyTo cut
  cases hr : a.reaches cp with
  | false => simp
  | true => simp [hself]

/-- The counts of a checkpoint bound those of every extension. -/
theorem reaches_iff {a b : Arena} :
    b.reaches a.checkpoint = true ↔
      a.pages.length ≤ b.pages.length ∧ a.large.length ≤ b.large.length ∧
        a.destructors.length ≤ b.destructors.length ∧
          (a.pages = [] ∨ a.back.used ≤ (b.pages.getD (a.pages.length - 1) {}).used) := by
  unfold reaches checkpoint
  simp only [Bool.and_eq_true, Bool.or_eq_true, decide_eq_true_eq, List.length_eq_zero_iff, and_assoc]
  by_cases hnil : a.pages = []
  · simp [hnil]
  · simp [hnil]

theorem back_concat {a : Arena} {init : List Page} {p : Page} (h : a.pages = init ++ [p]) : a.back = p := by
  unfold back
  rw [h, List.getLastD_concat]

/-- An extension is cut back to the pages it came from. -/
theorem Grown.cut_eq {l l' : List Page} (h : Grown l l') :
    cut l.length (if l = [] then 0 else (l.getLastD {}).used) l' = l := by
  rcases h with rfl | ⟨init, p, u, more, rfl, rfl, hu⟩
  · rfl
  · have hne : init ++ [p] ≠ [] := by simp
    unfold cut
    rw [if_neg hne, List.getLastD_concat, if_pos (by simp), List.length_append, List.length_singleton]
    rw [show init ++ { p with used := u } :: more = (init ++ [{ p with used := u }]) ++ more by simp]
    rw [List.take_left' (by simp), cutBack_concat, Nat.min_eq_right hu]

theorem Extends.reaches {a b : Arena} (h : Extends a b) : b.reaches a.checkpoint = true := by
  refine reaches_iff.mpr ⟨h.pages.length_le, h.large.length_le, h.destructors.length_le, ?_⟩
  rcases h.pages with hnil | ⟨init, p, u, more, ha, hb, hu⟩
  · exact .inl hnil
  · right
    rw [back_concat ha, ha, hb]
    have hlast : (init ++ { p with used := u } :: more).getD ((init ++ [p]).length - 1) {} = { p with used := u } := by
      simp
    rw [hlast]
    exact hu

/-- Rolling an extension back gives the arena that the checkpoint was taken of, and destroys what was
registered since, the newest first. -/
theorem Extends.rollback {a b : Arena} (h : Extends a b) :
    b.rollback a.checkpoint = .ok (a, (b.destructors.drop a.destructors.length).reverse) := by
  rw [rollback_eq h.self.symm, if_pos h.reaches]
  obtain ⟨more, hl⟩ := h.large
  obtain ⟨more', hd⟩ := h.destructors
  have hpages := h.pages.cut_eq
  have hlarge : b.large.take a.large.length = a.large := by rw [← hl, List.take_left]
  have hdes : b.destructors.take a.destructors.length = a.destructors := by rw [← hd, List.take_left]
  show Except.ok
    (({ b with
        destructors := b.destructors.take a.destructors.length
        pages := cut a.pages.length (if a.pages = [] then 0 else a.back.used) b.pages
        large := b.large.take a.large.length } : Arena), (b.destructors.drop a.destructors.length).reverse) = _
  unfold back
  rw [hpages, hlarge, hdes]
  obtain ⟨self, pageSize, largeThreshold, pages, large, destructors⟩ := a
  obtain ⟨hself, hsize, hthreshold, -, -, -⟩ := h
  dsimp only at hself hsize hthreshold ⊢
  rw [hself, hsize, hthreshold]

/-! ## Allocation -/

/-- Pages hold what was taken from them, and are blocks of their own. -/
structure Sound (m : Memory) : Prop where
  pageSize : m.arena.pageSize ≤ maxPageSize
  normal : ∀ p ∈ m.arena.pages, p.used ≤ p.cap ∧ p.cap ≤ maxPageSize ∧ p.alignment = maxAlign
  large : ∀ p ∈ m.arena.large, p.used ≤ p.cap
  blocks : ((m.arena.pages ++ m.arena.large).map Page.base).Nodup
  fresh : ∀ p ∈ m.arena.pages ++ m.arena.large, p.base < m.heap.nextBlock

/-- The arena is as it was; blocks may have come and gone. -/
structure Untouched (m m' : Memory) : Prop where
  arena : m'.arena = m.arena
  nextBlock : m.heap.nextBlock ≤ m'.heap.nextBlock

/-- What one allocation of `n` bytes at `ptr` does. -/
structure Allocates (n alignment : Nat) (ptr : Pointer) (m m' : Memory) : Prop where
  extends_ : Extends m.arena m'.arena
  nextBlock : m.heap.nextBlock ≤ m'.heap.nextBlock
  sound : Sound m'
  page : ∃ p ∈ m'.arena.pages ++ m'.arena.large, p.base = ptr.block ∧ ptr.offset + n ≤ p.used ∧
    alignment ∣ ptr.offset ∧ alignment ∣ p.alignment
  above : ∀ p ∈ m.arena.pages ++ m.arena.large, p.base = ptr.block → p.used ≤ ptr.offset

/-- None of the requests to come throws. -/
def Quiet (m : Memory) : Prop := true ∉ m.heap.faults

theorem Untouched.refl (m : Memory) : Untouched m m := ⟨rfl, Nat.le_refl _⟩

theorem Untouched.trans {m₁ m₂ m₃ : Memory} (h : Untouched m₁ m₂) (h' : Untouched m₂ m₃) :
    Untouched m₁ m₃ :=
  ⟨h'.arena.trans h.arena, Nat.le_trans h.nextBlock h'.nextBlock⟩

theorem Sound.untouched {m m' : Memory} (h : Sound m) (h' : Untouched m m') : Sound m' := by
  obtain ⟨harena, hnext⟩ := h'
  obtain ⟨hsize, hnormal, hlarge, hblocks, hfresh⟩ := h
  refine ⟨?_, ?_, ?_, ?_, ?_⟩
  · rw [harena]
    exact hsize
  · rw [harena]
    exact hnormal
  · rw [harena]
    exact hlarge
  · rw [harena]
    exact hblocks
  · rw [harena]
    intro p hp
    have hlt := hfresh p hp
    omega

/-- One more page, in a block that was just handed out. -/
theorem Sound.addBlock {m m' : Memory} {page : Page} (h : Sound m) (hbase : page.base = m.heap.nextBlock)
    (hnext : m'.heap.nextBlock = m.heap.nextBlock + 1)
    (hperm : (m'.arena.pages ++ m'.arena.large).Perm (page :: (m.arena.pages ++ m.arena.large))) :
    ((m'.arena.pages ++ m'.arena.large).map Page.base).Nodup ∧
      ∀ p ∈ m'.arena.pages ++ m'.arena.large, p.base < m'.heap.nextBlock := by
  constructor
  · rw [(hperm.map Page.base).nodup_iff, List.map_cons, List.nodup_cons]
    refine ⟨?_, h.blocks⟩
    intro hmem
    obtain ⟨p, hp, heq⟩ := List.mem_map.mp hmem
    have hlt := h.fresh p hp
    omega
  · intro p hp
    rcases List.mem_cons.mp (hperm.mem_iff.mp hp) with rfl | hp
    · omega
    · have hlt := h.fresh p hp
      omega

section

variable {m : Memory} {n cap alignment : Nat}

theorem requestThrows_apply (m : Memory) :
    ∃ m', requestThrows m = (.ok (m.heap.faults.headD false), m') ∧ m'.arena = m.arena ∧
      m'.heap.nextBlock = m.heap.nextBlock ∧ (Quiet m → m.heap.faults.headD false = false ∧ Quiet m') := by
  refine ⟨_, rfl, rfl, rfl, ?_⟩
  intro hquiet
  unfold Quiet at hquiet ⊢
  dsimp only
  cases hfaults : m.heap.faults with
  | nil => exact ⟨rfl, List.not_mem_nil⟩
  | cons b faults =>
    rw [hfaults] at hquiet
    refine ⟨?_, fun hmem => hquiet (List.mem_cons_of_mem b hmem)⟩
    cases b with
    | false => rfl
    | true => exact absurd List.mem_cons_self hquiet

theorem allocPage_cases (hcap : cap ≠ 0) (m : Memory) :
    (∃ m', allocPage cap alignment m = (.ok { base := m.heap.nextBlock, cap, alignment }, m') ∧
      m'.arena = m.arena ∧ m'.heap.nextBlock = m.heap.nextBlock + 1 ∧ (Quiet m → Quiet m')) ∨
    ∃ e m', allocPage cap alignment m = (.err e, m') ∧ Untouched m m' ∧ e ≠ notEnoughSpace ∧ ¬ Quiet m := by
  unfold allocPage
  obtain ⟨m₁, hreq, harena, hnext, hquiet⟩ := requestThrows_apply m
  rw [bind_ok (by rw [ensure_apply, if_pos (decide_eq_true hcap)]), bind_ok hreq]
  cases hthrows : m.heap.faults.headD false with
  | true =>
    right
    rw [hthrows] at hquiet
    exact ⟨_, m₁, rfl, ⟨harena, by omega⟩, by decide, fun hq => Bool.noConfusion (hquiet hq).1⟩
  | false =>
    left
    refine ⟨{ m₁ with heap := { m₁.heap with nextBlock := m₁.heap.nextBlock + 1 } }, ?_, harena, ?_,
      fun hq => (hquiet hq).2⟩
    · rw [← hnext]
      rfl
    · show m₁.heap.nextBlock + 1 = _
      rw [hnext]

theorem getNextPageSize_ok (a : Arena) (hn : 0 < n) (hmax : n ≤ maxPageSize) (hsize : a.pageSize ≤ maxPageSize) :
    ∃ cap, a.getNextPageSize n = .ok cap ∧ n ≤ cap ∧ cap ≤ maxPageSize := by
  unfold getNextPageSize
  rw [if_neg (by omega), if_neg (by omega)]
  by_cases hnil : a.pages = []
  · rw [if_pos hnil]
    exact ⟨_, rfl, Nat.le_max_right _ _, Nat.max_le.mpr ⟨hsize, hmax⟩⟩
  · rw [if_neg hnil]
    refine ⟨_, rfl, Nat.le_max_right _ _, Nat.max_le.mpr ⟨?_, hmax⟩⟩
    split
    · exact Nat.le_refl _
    · omega

/-- A page with room behind the last one. -/
structure Appends (n : Nat) (m m' : Memory) : Prop where
  page : ∃ p, m'.arena = { m.arena with pages := m.arena.pages ++ [p] } ∧ p.base = m.heap.nextBlock ∧
    p.used = 0 ∧
    n ≤ p.cap ∧ p.cap ≤ maxPageSize ∧ p.alignment = maxAlign
  nextBlock : m'.heap.nextBlock = m.heap.nextBlock + 1

theorem appendPage_cases (hs : Sound m) (hn : 0 < n) (hmax : n ≤ maxPageSize) :
    (∃ m', appendPage n m = (.ok (), m') ∧ Appends n m m' ∧ (Quiet m → Quiet m')) ∨
    ∃ e m', appendPage n m = (.err e, m') ∧ Untouched m m' ∧ e ≠ notEnoughSpace ∧ ¬ Quiet m := by
  unfold appendPage
  obtain ⟨cap, hsize, hfit, hcap⟩ := getNextPageSize_ok m.arena hn hmax hs.pageSize
  rw [bind_ok (get_apply m), bind_ok (by rw [hsize, lift_ok])]
  rcases @allocPage_cases cap maxAlign (by omega) m with ⟨m₁, hpage, harena, hnext, hquiet⟩ | ⟨e, m₁,
    hpage, hun, he⟩
  · rw [bind_ok hpage]
    obtain ⟨m₂, hreq, harena₂, hnext₂, hquiet₂⟩ := requestThrows_apply m₁
    rw [bind_ok hreq]
    cases hthrows : m₁.heap.faults.headD false with
    | true =>
      right
      rw [hthrows] at hquiet₂
      exact ⟨_, m₂, rfl, ⟨harena₂.trans harena, by omega⟩, by decide,
        fun hq => Bool.noConfusion (hquiet₂ (hquiet hq)).1⟩
    | false =>
      left
      refine ⟨_, rfl, ⟨⟨{ base := m.heap.nextBlock, cap, alignment := maxAlign }, ?_, rfl, rfl, hfit, hcap,
        rfl⟩, ?_⟩,
        fun hq => (hquiet₂ (hquiet hq)).2⟩
      · show ({ m₂.arena with pages := m₂.arena.pages ++ [_] } : Arena) = _
        rw [harena₂, harena]
      · exact hnext₂.trans hnext
  · right
    rw [bind_err hpage]
    exact ⟨e, m₁, rfl, hun, he⟩

theorem Appends.sound {m' : Memory} (h : Appends n m m') (hs : Sound m) : Sound m' := by
  obtain ⟨⟨p, harena, hbase, hused, hfit, hcap, halign⟩, hnext⟩ := h
  have hperm : (m'.arena.pages ++ m'.arena.large).Perm (p :: (m.arena.pages ++ m.arena.large)) := by
    rw [harena, List.append_assoc]
    exact List.perm_middle
  obtain ⟨hblocks, hfresh⟩ := hs.addBlock hbase hnext hperm
  refine ⟨?_, ?_, ?_, hblocks, hfresh⟩
  · rw [harena]
    exact hs.pageSize
  · rw [harena]
    intro q hq
    rcases List.mem_append.mp hq with hq | hq
    · exact hs.normal q hq
    · cases List.mem_singleton.mp hq
      exact ⟨by omega, hcap, halign⟩
  · rw [harena]
    exact hs.large

/-- The last page is used further, for bytes at the next multiple of the alignment. -/
theorem advance {m : Memory} {n alignment y : Nat} {init : List Page} {p : Page} (hs : Sound m)
    (hpages : m.arena.pages = init ++ [p]) (hdvd : alignment ∣ y) (halign : alignment ∣ maxAlign)
    (hle : p.used ≤ y) (hfit : y + n ≤ p.cap) :
    Allocates n alignment ⟨p.base, y⟩ m
      { m with arena := { m.arena with pages := init ++ [{ p with used := y + n }] } } := by
  have hp : p ∈ m.arena.pages := by
    rw [hpages]
    simp
  refine ⟨⟨rfl, rfl, rfl, .inr ⟨init, p, y + n, [], hpages, rfl, by omega⟩, List.prefix_refl _,
    List.prefix_refl _⟩,
    Nat.le_refl _, ⟨hs.pageSize, ?_, hs.large, ?_, ?_⟩, ?_, ?_⟩
  · intro q hq
    rcases List.mem_append.mp hq with hq | hq
    · exact hs.normal q (by rw [hpages]; exact List.mem_append_left _ hq)
    · cases List.mem_singleton.mp hq
      exact ⟨hfit, (hs.normal p hp).2⟩
  · have hblocks := hs.blocks
    rw [hpages] at hblocks
    simpa using hblocks
  · intro q hq
    have hfresh := hs.fresh
    rw [hpages] at hfresh
    simp only [List.mem_append, List.mem_singleton] at hq hfresh
    rcases hq with (hq | rfl) | hq
    · exact hfresh q (.inl (.inl hq))
    · exact hfresh p (.inl (.inr rfl))
    · exact hfresh q (.inr hq)
  · refine ⟨{ p with used := y + n }, by simp, rfl, Nat.le_refl _, hdvd, ?_⟩
    show alignment ∣ p.alignment
    rw [(hs.normal p hp).2.2]
    exact halign
  · intro q hq hbase
    -- no other page is in this block
    have hmem : p ∈ m.arena.pages ++ m.arena.large := List.mem_append_left _ hp
    have heq := List.inj_on_of_nodup_map hs.blocks hq hmem hbase
    rw [heq]
    exact hle

theorem Appends.extends_ {m' : Memory} (h : Appends n m m') : Extends m.arena m'.arena := by
  obtain ⟨⟨p, harena, -⟩, -⟩ := h
  rw [harena]
  exact ⟨rfl, rfl, rfl, Grown.append _ _, List.prefix_refl _, List.prefix_refl _⟩

/-- What is allocated behind a fresh page is allocated. -/
theorem Allocates.behind {ptr : Pointer} {m₁ m₂ : Memory} (h : Allocates n alignment ptr m₁ m₂)
    (ha : Appends n m m₁) : Allocates n alignment ptr m m₂ := by
  have hnext := h.nextBlock
  rw [ha.nextBlock] at hnext
  refine ⟨ha.extends_.trans h.extends_, by omega, h.sound, h.page, ?_⟩
  intro p hp hbase
  obtain ⟨q, hq, hsame, -, -, hle⟩ := ha.extends_.page hp
  have habove := h.above q hq (hsame.trans hbase)
  omega

theorem dvd_maxAlign (hpow : alignment.isPowerOfTwo) (hle : alignment ≤ maxAlign) : alignment ∣ maxAlign := by
  obtain ⟨k, rfl⟩ := hpow
  have hk : k ≤ 4 := by
    by_contra hk
    have hlt : 2 ^ 4 < 2 ^ k := Nat.pow_lt_pow_right (by omega) (by omega)
    unfold maxAlign at hle
    omega
  exact Nat.pow_dvd_pow 2 hk

theorem alignUp_page {p : Page} (hp : p.used ≤ p.cap ∧ p.cap ≤ maxPageSize ∧ p.alignment = maxAlign)
    (hpow : alignment.isPowerOfTwo) (hle : alignment ≤ maxAlign) :
    ∃ y, alignUp p.used alignment = .ok y ∧ alignment ∣ y ∧ p.used ≤ y ∧ y < p.used + alignment := by
  obtain ⟨hused, hcap, -⟩ := hp
  apply alignUp_ok hpow
  unfold maxPageSize at hcap
  unfold maxAlign at hle
  unfold sizeMax
  omega

theorem fitsIn_fresh {p : Page} (hp : p.used ≤ p.cap ∧ p.cap ≤ maxPageSize ∧ p.alignment = maxAlign)
    (hpow : alignment.isPowerOfTwo) (hle : alignment ≤ maxAlign) (hused : p.used = 0) (hfit : n ≤ p.cap) :
    fitsIn p n alignment = .ok true := by
  obtain ⟨y, hy, hdvd, -, hlt⟩ := alignUp_page hp hpow hle
  have hzero : y = 0 := Nat.eq_zero_of_dvd_of_lt hdvd (by omega)
  unfold fitsIn
  rw [hy, ok_bind, if_neg (by omega), decide_eq_true (by omega)]

/-- The end of `alloc_small`, when the last page has room. -/
theorem takeSpace_ok {init : List Page} {p : Page} (hs : Sound m) (hpages : m.arena.pages = init ++ [p])
    (hpow : alignment.isPowerOfTwo) (hle : alignment ≤ maxAlign) (hfit : fitsIn p n alignment = .ok true) :
    ∃ ptr m', takeSpace n alignment m = (.ok ptr, m') ∧ Allocates n alignment ptr m m' ∧ m'.heap = m.heap := by
  have hp : p ∈ m.arena.pages := by
    rw [hpages]
    simp
  obtain ⟨y, hy, hdvd, hxy, -⟩ := alignUp_page (hs.normal p hp) hpow hle
  unfold fitsIn at hfit
  rw [hy, ok_bind] at hfit
  split at hfit
  · cases hfit
  · next hover =>
    have hroom : n ≤ p.cap - y := of_decide_eq_true (Except.ok.inj hfit)
    have hnot : ¬ n > p.cap - y := by omega
    refine ⟨_, _, ?_, advance hs hpages hdvd (dvd_maxAlign hpow hle) hxy (by omega), rfl⟩
    unfold takeSpace
    rw [bind_ok (get_apply m)]
    dsimp only
    rw [back_concat hpages, bind_ok (by rw [hy, lift_ok]),
      bind_ok (by rw [ensure_apply, if_pos (by simp [hover, hnot])]), bind_ok (modify_apply _ m), pure_apply,
      hpages, List.dropLast_concat]

theorem allocSmall_cases (hs : Sound m) (hn : 0 < n) (hmax : n ≤ maxPageSize) (hpow : alignment.isPowerOfTwo)
    (hle : alignment ≤ maxAlign) :
    (∃ ptr m', allocSmall n alignment m = (.ok ptr, m') ∧ Allocates n alignment ptr m m' ∧
      (Quiet m → Quiet m')) ∨
    ∃ e m', allocSmall n alignment m = (.err e, m') ∧ Untouched m m' ∧ e ≠ notEnoughSpace ∧ ¬ Quiet m := by
  -- behind a fresh page there is room
  have hbehind : ∀ m', Appends n m m' →
      fitsIn m'.arena.back n alignment = .ok true ∧
        ∃ ptr m'', takeSpace n alignment m' = (.ok ptr, m'') ∧ Allocates n alignment ptr m m'' ∧
          m''.heap = m'.heap := by
    intro m' ha
    have hs' := ha.sound hs
    obtain ⟨⟨p, harena, -, hused, hfit, -, -⟩, -⟩ := id ha
    have hpages : m'.arena.pages = m.arena.pages ++ [p] := by rw [harena]
    have hp := hs'.normal p (by rw [hpages]; simp)
    have hfits := fitsIn_fresh hp hpow hle hused hfit
    rw [back_concat hpages]
    obtain ⟨ptr, m'', htake, hall, hheap⟩ := takeSpace_ok hs' hpages hpow hle hfits
    exact ⟨hfits, ptr, m'', htake, hall.behind ha, hheap⟩
  have hkept : ∀ {m' m'' : Memory}, m''.heap = m'.heap → (Quiet m → Quiet m') → Quiet m → Quiet m'' := by
    intro m' m'' hheap hquiet hq
    unfold Quiet
    rw [hheap]
    exact hquiet hq
  unfold allocSmall
  rw [bind_ok (get_apply m)]
  dsimp only
  rcases List.eq_nil_or_concat' m.arena.pages with hnil | ⟨init, p, hpages⟩
  · rw [if_pos hnil]
    rcases appendPage_cases hs hn hmax with ⟨m₁, happ, ha, hquiet⟩ | ⟨e, m₁, happ, hun, he⟩
    · left
      obtain ⟨hfits, ptr, m₂, htake, hall, hheap⟩ := hbehind m₁ ha
      rw [bind_ok happ, bind_ok (get_apply m₁), bind_ok (by rw [hfits, lift_ok]), if_neg (by decide)]
      exact ⟨ptr, m₂, htake, hall, hkept hheap hquiet⟩
    · right
      rw [bind_err happ]
      exact ⟨e, m₁, rfl, hun, he⟩
  · have hne : m.arena.pages ≠ [] := by
      rw [hpages]
      simp
    have hp := hs.normal p (by rw [hpages]; simp)
    rw [if_neg hne, bind_ok (get_apply m), back_concat hpages]
    obtain ⟨y, hy, -⟩ := alignUp_page hp hpow hle
    have hsome : ∃ fits, fitsIn p n alignment = .ok fits := by
      unfold fitsIn
      rw [hy, ok_bind]
      split
      · exact ⟨_, rfl⟩
      · exact ⟨_, rfl⟩
    obtain ⟨fits, hfits⟩ := hsome
    rw [bind_ok (by rw [hfits, lift_ok])]
    cases fits with
    | true =>
      left
      rw [if_neg (by decide)]
      obtain ⟨ptr, m₁, htake, hall, hheap⟩ := takeSpace_ok hs hpages hpow hle hfits
      exact ⟨ptr, m₁, htake, hall, hkept hheap id⟩
    | false =>
      rw [if_pos rfl]
      rcases appendPage_cases hs hn hmax with ⟨m₁, happ, ha, hquiet⟩ | ⟨e, m₁, happ, hun, he⟩
      · left
        obtain ⟨-, ptr, m₂, htake, hall, hheap⟩ := hbehind m₁ ha
        rw [bind_ok happ]
        exact ⟨ptr, m₂, htake, hall, hkept hheap hquiet⟩
      · right
        rw [bind_err happ]
        exact ⟨e, m₁, rfl, hun, he⟩

theorem allocLarge_cases (hs : Sound m) (hn : 0 < n) :
    (∃ ptr m', allocLarge n alignment m = (.ok ptr, m') ∧ Allocates n alignment ptr m m' ∧
      (Quiet m → Quiet m')) ∨
    ∃ e m', allocLarge n alignment m = (.err e, m') ∧ Untouched m m' ∧ e ≠ notEnoughSpace ∧ ¬ Quiet m := by
  unfold allocLarge
  rcases @allocPage_cases n alignment (by omega) m with ⟨m₁, hpage, harena, hnext, hquiet⟩ | ⟨e, m₁,
    hpage, hun, he⟩
  · rw [bind_ok hpage]
    obtain ⟨m₂, hreq, harena₂, hnext₂, hquiet₂⟩ := requestThrows_apply m₁
    rw [bind_ok hreq]
    cases hthrows : m₁.heap.faults.headD false with
    | true =>
      right
      rw [hthrows] at hquiet₂
      exact ⟨_, m₂, rfl, ⟨harena₂.trans harena, by omega⟩, by decide,
        fun hq => Bool.noConfusion (hquiet₂ (hquiet hq)).1⟩
    | false =>
      left
      have harena' := harena₂.trans harena
      have hnext' := hnext₂.trans hnext
      refine ⟨⟨m.heap.nextBlock, 0⟩, _, rfl, ?_, fun hq => (hquiet₂ (hquiet hq)).2⟩
      dsimp only
      rw [harena']
      let page : Page := { base := m.heap.nextBlock, cap := n, used := n, alignment }
      have hperm : (m.arena.pages ++ (m.arena.large ++ [page])).Perm (page :: (m.arena.pages ++ m.arena.large)) := by
        rw [← List.append_assoc]
        exact List.perm_append_singleton _ _
      obtain ⟨hblocks, hfresh⟩ := @Sound.addBlock m
        { m₂ with arena := { m.arena with large := m.arena.large ++ [page] } } page hs rfl hnext' hperm
      refine ⟨⟨rfl, rfl, rfl, Grown.refl _, List.prefix_append _ _, List.prefix_refl _⟩, ?_,
        ⟨hs.pageSize, hs.normal, ?_, hblocks, hfresh⟩, ?_, ?_⟩
      · show m.heap.nextBlock ≤ m₂.heap.nextBlock
        omega
      · intro p hp
        rcases List.mem_append.mp hp with hp | hp
        · exact hs.large p hp
        · cases List.mem_singleton.mp hp
          exact Nat.le_refl _
      · exact ⟨page, by simp [page], rfl, by simp [page], Nat.dvd_zero _, Nat.dvd_refl _⟩
      · intro p hp hbase
        have hlt := hs.fresh p hp
        dsimp only at hbase
        omega
  · right
    rw [bind_err hpage]
    exact ⟨e, m₁, rfl, hun, he⟩

/-- **Allocation.**  No request fails for want of space in a page, and at a proper alignment none fails
unless the free store throws. -/
theorem alloc_cases (hs : Sound m) (n alignment : Nat) :
    (n = 0 ∧ alloc n alignment m = (.ok none, m)) ∨
    (∃ ptr m', alloc n alignment m = (.ok (some ptr), m') ∧ Allocates n alignment ptr m m' ∧ 0 < n ∧
      (Quiet m → Quiet m')) ∨
    ∃ e m', alloc n alignment m = (.err e, m') ∧ Untouched m m' ∧ e ≠ notEnoughSpace ∧
      (alignment.isPowerOfTwo → ¬ Quiet m) := by
  unfold alloc
  by_cases hzero : n = 0
  · left
    rw [if_pos hzero]
    exact ⟨hzero, rfl⟩
  · right
    rw [if_neg hzero]
    by_cases halign : alignment = 0
    · right
      rw [bind_err (by rw [ensure_apply, if_neg (by simp [halign])])]
      refine ⟨_, m, rfl, Untouched.refl m, by decide, ?_⟩
      rintro ⟨k, hk⟩
      have hpos := Nat.two_pow_pos k
      omega
    · rw [bind_ok (by rw [ensure_apply, if_pos (by simp [halign])])]
      by_cases hpow : alignment.isPowerOfTwo
      · rw [bind_ok (by rw [ensure_apply, if_pos (decide_eq_true hpow)]), bind_ok (get_apply m)]
        have hcases : (∃ ptr m', (if n ≥ m.arena.largeThreshold ∨ n > maxPageSize ∨ alignment > maxAlign then
              allocLarge n alignment else allocSmall n alignment) m = (.ok ptr, m') ∧
                Allocates n alignment ptr m m' ∧
                (Quiet m → Quiet m')) ∨
            ∃ e m', (if n ≥ m.arena.largeThreshold ∨ n > maxPageSize ∨ alignment > maxAlign then
              allocLarge n alignment else allocSmall n alignment) m = (.err e, m') ∧ Untouched m m' ∧
                e ≠ notEnoughSpace ∧ ¬ Quiet m := by
          split
          · exact allocLarge_cases hs (by omega)
          · exact allocSmall_cases hs (by omega) (by omega) hpow (by omega)
        rw [← apply_ite (fun p => some <$> p)]
        rcases hcases with ⟨ptr, m', heq, hall, hquiet⟩ | ⟨e, m', heq, hun, he, hthrows⟩
        · left
          refine ⟨ptr, m', ?_, hall, by omega, hquiet⟩
          exact bind_ok heq
        · right
          exact ⟨e, m', bind_err heq, hun, he, fun _ => hthrows⟩
      · right
        rw [bind_err (by rw [ensure_apply, if_neg (by simp [hpow])])]
        exact ⟨_, m, rfl, Untouched.refl m, by decide, fun h => absurd h hpow⟩

/-! ## Objects -/

/-- Entries were added to the list of destructors. -/
structure Registered (m m' : Memory) : Prop where
  arena : ∃ entries, m'.arena = { m.arena with destructors := m.arena.destructors ++ entries }
  nextBlock : m'.heap.nextBlock = m.heap.nextBlock

theorem Registered.refl (m : Memory) : Registered m m := by
  refine ⟨⟨[], ?_⟩, rfl⟩
  rw [List.append_nil]

theorem Registered.trans {m₁ m₂ m₃ : Memory} (h : Registered m₁ m₂) (h' : Registered m₂ m₃) :
    Registered m₁ m₃ := by
  obtain ⟨⟨entries, harena⟩, hnext⟩ := h
  obtain ⟨⟨entries', harena'⟩, hnext'⟩ := h'
  refine ⟨⟨entries ++ entries', ?_⟩, hnext'.trans hnext⟩
  rw [harena', harena, List.append_assoc]

theorem Registered.extends_ {m' : Memory} (h : Registered m m') : Extends m.arena m'.arena := by
  obtain ⟨⟨entries, harena⟩, -⟩ := h
  rw [harena]
  exact ⟨rfl, rfl, rfl, Grown.refl _, List.prefix_refl _, List.prefix_append _ _⟩

theorem Allocates.registered {ptr : Pointer} {m₁ m₂ : Memory} (h : Allocates n alignment ptr m m₁)
    (hr : Registered m₁ m₂) : Allocates n alignment ptr m m₂ := by
  have hext := hr.extends_
  obtain ⟨⟨entries, harena⟩, hnext⟩ := hr
  have hnext' := h.nextBlock
  obtain ⟨hsize, hnormal, hlarge, hblocks, hfresh⟩ := h.sound
  refine ⟨h.extends_.trans hext, by omega, ⟨?_, ?_, ?_, ?_, ?_⟩, ?_, h.above⟩
  · rw [harena]
    exact hsize
  · rw [harena]
    exact hnormal
  · rw [harena]
    exact hlarge
  · rw [harena]
    exact hblocks
  · rw [harena, hnext]
    exact hfresh
  · rw [harena]
    exact h.page

/-- A creation that is given up leaves the arena as it was at the checkpoint. -/
theorem abandon_cases {m₁ : Memory} (hext : Extends m.arena m₁.arena)
    (hnext : m.heap.nextBlock ≤ m₁.heap.nextBlock)
    (e : CreationError) :
    ∃ m₂, abandon m.arena.checkpoint e m₁ = ((.err e, m₂) : Outcome CreationError α × Memory) ∧
      Untouched m m₂ := by
  refine ⟨{ m₁ with arena := m.arena }, ?_, rfl, hnext⟩
  have hroll : rollbackTo m.arena.checkpoint m₁ = (.ok (), { m₁ with arena := m.arena }) := by
    unfold rollbackTo
    rw [hext.rollback]
  unfold abandon
  rw [bind_ok hroll]
  rfl

theorem registerObject_cases {m₁ : Memory} (hext : Extends m.arena m₁.arena)
    (hnext : m.heap.nextBlock ≤ m₁.heap.nextBlock) (T : ObjectType) (object : Pointer) (text : String) :
    (∃ m₂, registerObject T m.arena.checkpoint object text m₁ = (.ok (), m₂) ∧ Registered m₁ m₂) ∨
    ∃ e m₂, registerObject T m.arena.checkpoint object text m₁ = (.err e, m₂) ∧ Untouched m m₂ := by
  unfold registerObject
  by_cases ht : T.trivial = true
  · left
    rw [if_pos ht]
    exact ⟨m₁, rfl, Registered.refl m₁⟩
  · rw [if_neg ht]
    obtain ⟨m₂, hreq, harena, hnext', -⟩ := requestThrows_apply m₁
    cases hthrows : m₁.heap.faults.headD false with
    | true =>
      right
      rw [hthrows] at hreq
      have hreg : mapErr CreationError.status (registerDestructor ⟨object, 1⟩) m₁ = (.ok false, m₂) := by
        unfold mapErr registerDestructor
        rw [bind_ok hreq]
        rfl
      rw [bind_ok hreg, if_neg (by decide)]
      have hext' : Extends m.arena m₂.arena := by
        rw [harena]
        exact hext
      obtain ⟨m₃, heq, hun⟩ := abandon_cases (α := Unit) hext' (by omega) (.status ⟨.allocationFailed, text⟩)
      exact ⟨_, m₃, heq, hun⟩
    | false =>
      left
      rw [hthrows] at hreq
      have hreg : mapErr CreationError.status (registerDestructor ⟨object, 1⟩) m₁ =
          (.ok true,
            { m₂ with arena := { m₂.arena with destructors := m₂.arena.destructors ++ [⟨object, 1⟩] } }) := by
        unfold mapErr registerDestructor
        rw [bind_ok hreq]
        rfl
      rw [bind_ok hreg, if_pos rfl]
      refine ⟨_, rfl, ⟨[⟨object, 1⟩], ?_⟩, hnext'⟩
      rw [harena]

theorem constructObjects_cases {m₁ : Memory} (hext : Extends m.arena m₁.arena)
    (hnext : m.heap.nextBlock ≤ m₁.heap.nextBlock) (T : ObjectType) (objects : Pointer) (throwsAt : Option Nat)
    (indices : List Nat) :
    (∃ m₂, constructObjects T m.arena.checkpoint objects throwsAt indices m₁ = (.ok (), m₂) ∧
      Registered m₁ m₂) ∨
    ∃ e m₂, constructObjects T m.arena.checkpoint objects throwsAt indices m₁ = (.err e, m₂) ∧
      Untouched m m₂ := by
  induction indices generalizing m₁ with
  | nil => exact .inl ⟨m₁, rfl, Registered.refl m₁⟩
  | cons i rest ih =>
    rw [constructObjects]
    by_cases hi : throwsAt = some i
    · right
      rw [if_pos hi]
      obtain ⟨m₂, heq, hun⟩ := abandon_cases (α := Unit) hext hnext .constructor
      exact ⟨_, m₂, heq, hun⟩
    · rw [if_neg hi]
      rcases registerObject_cases hext hnext T { objects with offset := objects.offset + i * T.size }
        "Failed to register arena array destructor" with ⟨m₂, heq, hr⟩ | ⟨e, m₂, heq, hun⟩
      · rw [bind_ok heq]
        have hnext' := hr.nextBlock
        rcases ih (hext.trans hr.extends_) (by omega) with ⟨m₃, heq', hr'⟩ | ⟨e, m₃, heq', hun⟩
        · exact .inl ⟨m₃, heq', hr.trans hr'⟩
        · exact .inr ⟨e, m₃, heq', hun⟩
      · right
        rw [bind_err heq]
        exact ⟨e, m₂, rfl, hun⟩

/-- Creating an object allocates it, or changes nothing. -/
theorem arenaNew_cases (hs : Sound m) (T : ObjectType) (throws : Bool) :
    (∃ ptr m', arenaNew T throws m = (.ok ptr, m') ∧ Allocates T.size T.alignment ptr m m') ∨
    ∃ e m', arenaNew T throws m = (.err e, m') ∧ Untouched m m' := by
  unfold arenaNew
  have hpos := T.sizePos
  rw [bind_ok (get_apply m)]
  rcases alloc_cases hs T.size T.alignment with ⟨hzero, -⟩ | ⟨ptr, m₁, halloc, hall, -⟩ | ⟨e, m₁,
    halloc, hun, -⟩
  · omega
  · have hmap : mapErr CreationError.status (alloc T.size T.alignment) m = (.ok (some ptr), m₁) := by
      unfold mapErr
      rw [halloc]
    rw [bind_ok hmap]
    dsimp only
    by_cases ht : throws = true
    · right
      rw [if_pos ht]
      obtain ⟨m₂, heq, hun⟩ := abandon_cases (α := Pointer) hall.extends_ hall.nextBlock .constructor
      exact ⟨_, m₂, heq, hun⟩
    · rw [if_neg ht]
      rcases registerObject_cases hall.extends_ hall.nextBlock T ptr "Failed to register arena object destructor" with
        ⟨m₂, heq, hr⟩ | ⟨e, m₂, heq, hun⟩
      · left
        rw [bind_ok heq]
        exact ⟨ptr, m₂, rfl, hall.registered hr⟩
      · right
        rw [bind_err heq]
        exact ⟨e, m₂, rfl, hun⟩
  · right
    have hmap : mapErr CreationError.status (alloc T.size T.alignment) m = (.err (.status e), m₁) := by
      unfold mapErr
      rw [halloc]
    rw [bind_err hmap]
    exact ⟨_, m₁, rfl, hun⟩

theorem arenaNewArray_cases (hs : Sound m) (T : ObjectType) (count : Nat) (throwsAt : Option Nat) :
    (∃ ptr m', arenaNewArray T count throwsAt m = (.ok ptr, m') ∧
      Allocates (T.size * count) T.alignment ptr m m' ∧ 0 < T.size * count) ∨
    ∃ e m', arenaNewArray T count throwsAt m = (.err e, m') ∧ Untouched m m' := by
  unfold arenaNewArray
  by_cases hcount : count = 0
  · right
    rw [bind_err (by rw [ensure_apply, if_neg (by simp [hcount])])]
    exact ⟨_, m, rfl, Untouched.refl m⟩
  · rw [bind_ok (by rw [ensure_apply, if_pos (by simp [hcount])])]
    have hpos : 0 < T.size * count := Nat.mul_pos T.sizePos (by omega)
    by_cases hbig : count ≤ sizeMax / T.size
    · rw [bind_ok (by rw [ensure_apply, if_pos (decide_eq_true hbig)]), bind_ok (get_apply m)]
      rcases alloc_cases hs (T.size * count) T.alignment with
        ⟨hzero, -⟩ | ⟨ptr, m₁, halloc, hall, -⟩ | ⟨e, m₁, halloc, hun, -⟩
      · omega
      · have hmap : mapErr CreationError.status (alloc (T.size * count) T.alignment) m = (.ok (some ptr), m₁) := by
          unfold mapErr
          rw [halloc]
        rw [bind_ok hmap]
        dsimp only
        rcases constructObjects_cases hall.extends_ hall.nextBlock T ptr throwsAt (List.range count) with
          ⟨m₂, heq, hr⟩ | ⟨e, m₂, heq, hun⟩
        · left
          rw [bind_ok heq]
          exact ⟨ptr, m₂, rfl, hall.registered hr, hpos⟩
        · right
          rw [bind_err heq]
          exact ⟨e, m₂, rfl, hun⟩
      · right
        have hmap : mapErr CreationError.status (alloc (T.size * count) T.alignment) m = (.err (.status e), m₁) := by
          unfold mapErr
          rw [halloc]
        rw [bind_err hmap]
        exact ⟨_, m₁, rfl, hun⟩
    · right
      rw [bind_err (by rw [ensure_apply, if_neg (by simp [hbig])])]
      exact ⟨_, m, rfl, Untouched.refl m⟩

end

end Arena

end Kvdb
